import Mathlib.Data.List.Perm.Subperm
import RemoteMount.Proofs.Interleaving
import RemoteMount.Proofs.SessionDiscipline
import RemoteMount.Proofs.Turns

namespace RemoteMount

open Memory Program
open Progress (Settled)

namespace Memory.Device

variable {d : Device} {faults : Faults}

@[simp] theorem nextSession_arm : (d.arm faults).nextSession = d.nextSession := by rw [arm_eq]

end Memory.Device

namespace Turns

namespace Exchange

def opens (x : Exchange) : Bool := x.request.op = .openFile && x.granted

def closes (x : Exchange) : Bool := x.request.op = .close

theorem opens_mk (r : Request) (x : Except RemoteError r.Reply) :
    (⟨r, x.isOk⟩ : Exchange).opens = (r.opened? x).isSome := by
  cases r <;> cases x <;> rfl

end Exchange

/-- What the log and the device show of a call that has come to a stage, if it was begun on the
device `d`. -/
inductive Stands (d : Device) (s : State) : Stage → Prop
  | unopened (ho : s.log.countP Exchange.opens = 0) (hc : s.log.countP Exchange.closes = 0)
      (hs : s.shared.device.sessions = d.sessions)
        (hn : s.shared.device.nextSession = d.nextSession) :
    Stands d s .unopened
  | opened {x : Session} (ho : s.log.countP Exchange.opens = 1)
    (hc : s.log.countP Exchange.closes = 0)
      (hs : s.shared.device.sessions = d.sessions.insert d.nextSession x) :
        Stands d s (.opened d.nextSession)
  | closed (ho : s.log.countP Exchange.opens = 1) (hc : s.log.countP Exchange.closes = 1)
      (hl : s.log.tail.countP Exchange.closes = 0) (hs : s.shared.device.sessions = d.sessions) :
        Stands d s .closed

/-- The invariant of a call in progress. -/
structure Ledger (d : Device) (s : State) (w : Progress) : Prop where
  used : s.log.map (·.request.op) = w.used
  nodup : w.used.Nodup
  own : ∀ x ∈ s.log, ∀ id, x.request.session? = some id → id = d.nextSession
  stands : Stands d s w.stage

variable {d : Device} {s s' : State} {w : Progress} {faults : Faults} {stage : Stage}

theorem Stands.of_eq (h : Stands d s stage) (hl : s'.log = s.log)
    (hs : s'.shared.device.sessions = s.shared.device.sessions)
    (hn : s'.shared.device.nextSession = s.shared.device.nextSession) : Stands d s' stage := by
  cases h with
  | unopened ho hc hs' hn' => exact .unopened (hl ▸ ho) (hl ▸ hc) (hs.trans hs') (hn.trans hn')
  | opened ho hc hs' => exact .opened (hl ▸ ho) (hl ▸ hc) (hs.trans hs')
  | closed ho hc ht hs' => exact .closed (hl ▸ ho) (hl ▸ hc) (hl ▸ ht) (hs.trans hs')

theorem Stands.session {r : Request} {id : SessionId} (h : Stands d s stage) (ha : stage.Admits r)
    (hr : r.session? = some id) : id = d.nextSession := by
  cases h with
  | unopened => cases hr.symm.trans ha
  | opened => exact Option.some_inj.1 (hr.symm.trans ha)
  | closed => exact ha.elim

theorem counts_of_quiet {r : Request} {x : Except RemoteError r.Reply}
    (hl : s'.log = ⟨r, x.isOk⟩ :: s.log)
    (ho : r.opened? x = none) (hc : r.op ≠ .close) :
    s'.log.countP Exchange.opens = s.log.countP Exchange.opens ∧
      s'.log.countP Exchange.closes = s.log.countP Exchange.closes := by
  constructor
  · rw [hl, List.countP_cons, Exchange.opens_mk, ho]
    rfl
  · rw [hl, List.countP_cons]
    simp [Exchange.closes, hc]

theorem stands_answer {d₁ : Device} {r : Request} (hd : d.Numbered) (h : Stands d s stage)
    (ha : stage.Admits r)
    (h₁ : d₁.sessions = s.shared.device.sessions)
    (hn₁ : d₁.nextSession = s.shared.device.nextSession)
    (hs' : s'.shared.device = (d₁.answer r).2) (hl' : s'.log = ⟨r, (d₁.answer r).1.isOk⟩ :: s.log) :
    Stands d s' (stage.after r (d₁.answer r).1) := by
  have heffect := Device.answer_sessions d₁ r
  rw [← hs'] at heffect
  generalize (d₁.answer r).1 = x at heffect hl' ⊢
  cases h with
  | unopened ho hc hs hn =>
    have hnone : r.session? = none := ha
    cases heffect with
    | unchanged ho' hc' hsame hnsame =>
      obtain ⟨hopens, hcloses⟩ := counts_of_quiet hl' ho' hc'
      rw [Stage.after_of_not_opened ho' hc']
      exact .unopened (hopens.trans ho) (hcloses.trans hc) (hsame.trans (h₁.trans hs))
        (hnsame.trans (hn₁.trans hn))
    | opened ho' hinsert =>
      have hid : d₁.nextSession = d.nextSession := hn₁.trans hn
      rw [Stage.after_of_opened ho', hid]
      rw [hid, h₁, hs] at hinsert
      refine .opened ?_ ?_ hinsert
      · rw [hl', List.countP_cons, Exchange.opens_mk, ho', ho]
        rfl
      · rw [hl', List.countP_cons, hc]
        simp [Exchange.closes, (Request.op_of_opened? ho').1]
    -- Nothing is asked of a session before one was opened.
    | moved hr =>
      rw [hr] at hnone
      cases hnone
    | closed hr =>
      rw [hr] at hnone
      cases hnone
  | opened ho hc hs =>
    have hsome : r.session? = some d.nextSession := ha
    cases heffect with
    | unchanged ho' hc' hsame =>
      obtain ⟨hopens, hcloses⟩ := counts_of_quiet hl' ho' hc'
      rw [Stage.after_of_not_opened ho' hc']
      exact .opened (hopens.trans ho) (hcloses.trans hc) (hsame.trans (h₁.trans hs))
    | opened ho' =>
      rw [(Request.op_of_opened? ho').2] at hsome
      cases hsome
    | moved hr hc' hk hinsert =>
      obtain rfl := Option.some_inj.1 (hsome.symm.trans hr)
      have hnone : r.opened? x = none := Request.opened?_of_session? hr
      obtain ⟨hopens, hcloses⟩ := counts_of_quiet hl' hnone hc'
      rw [Stage.after_of_not_opened hnone hc']
      rw [h₁, hs, KeyMap.insert_insert] at hinsert
      exact .opened (hopens.trans ho) (hcloses.trans hc) hinsert
    | closed hr herase =>
      subst hr
      obtain rfl := Option.some_inj.1 hsome
      have hfresh : d.nextSession ∉ d.sessions.keys := fun hk ↦ Nat.lt_irrefl _ (hd _ hk)
      rw [Stage.after_of_close rfl]
      rw [h₁, hs, KeyMap.erase_insert_of_new hfresh] at herase
      refine .closed ?_ ?_ ?_ herase
      · rw [hl', List.countP_cons, Exchange.opens_mk, ho]
        rfl
      · rw [hl', List.countP_cons, hc]
        rfl
      · rw [hl', List.tail_cons, hc]
  | closed => exact ha.elim

theorem ledger_take (hd : d.Numbered) (h : Ledger d s w) {a : Step} (ha : w.Admits a)
    (faults : Faults) :
    Ledger d (s.take faults a).2 (w.after a (s.take faults a).1) := by
  cases a with
  | remote r =>
    obtain ⟨hadmits, hnew⟩ := ha
    refine ⟨?_, List.nodup_cons.2 ⟨hnew, h.nodup⟩, ?_, ?_⟩
    · exact congrArg (r.op :: ·) h.used
    · intro x hx id hxid
      rcases List.mem_cons.1 hx with rfl | hx
      · exact h.stands.session hadmits hxid
      · exact h.own x hx id hxid
    · exact stands_answer hd h.stands hadmits Device.sessions_arm Device.nextSession_arm rfl rfl
  | size id | cache access =>
    exact ⟨h.used, h.nodup, h.own, h.stands.of_eq rfl Device.sessions_arm Device.nextSession_arm⟩

/-- What a call has done about sessions that was begun on the device `d`. -/
structure Tidy (d : Device) (s : State) : Prop where
  closes_eq_opens : s.log.countP Exchange.closes = s.log.countP Exchange.opens
  opens_le_one : s.log.countP Exchange.opens ≤ 1
  close_last : ∀ x ∈ s.log.tail, x.request.op ≠ .close
  own_session : ∀ x ∈ s.log, ∀ id, x.request.session? = some id → id = d.nextSession
  no_retry : (s.log.map (·.request.op)).Nodup
  sessions_eq : s.shared.device.sessions = d.sessions

theorem Ledger.tidy (h : Ledger d s w) (hw : w.Settled) : Tidy d s := by
  obtain ⟨hused, hnodup, hown, hstands⟩ := h
  rw [← hused] at hnodup
  generalize hstage : w.stage = stage at hstands
  rw [Settled, hstage] at hw
  cases hstands with
  | unopened ho hc hs =>
    refine ⟨hc.trans ho.symm, by omega, fun x hx hclose ↦ ?_, hown, hnodup, hs⟩
    exact List.countP_eq_zero.1 hc x (List.mem_of_mem_tail hx) (decide_eq_true hclose)
  | opened => cases hw
  | closed ho hc hl hs =>
    refine ⟨hc.trans ho.symm, by omega, fun x hx hclose ↦ ?_, hown, hnodup, hs⟩
    exact List.countP_eq_zero.1 hl x hx (decide_eq_true hclose)

theorem ledger_start (d : Device) (cache : AttributeCache) : Ledger d ⟨⟨d, cache⟩, []⟩ .start :=
  ⟨rfl, List.nodup_nil, nofun, .unopened rfl rfl rfl rfl⟩

theorem ensures_ledger {α : Type} {p : Program α} (hd : d.Numbered)
    (hp : p.Orderly (fun _ ↦ Settled) w) (h : Ledger d s w) : p.Ensures (fun _ ↦ Tidy d) s := by
  induction p generalizing s w with
  | done a => exact h.tidy hp
  | step a next ih => exact fun faults ↦ ih _ (hp.2 _) (ledger_take hd h hp.1 faults)

theorem tidy_call (policy : Policy) (caller : Caller) (call : Call String) {m : CachedDevice Device}
    (hm : m.device.Numbered) (faults : List Faults) :
    Tidy m.device (perform (call.programOfText policy caller) m faults).2 :=
  (ensures_ledger hm (call.orderly_programOfText policy caller)
    (ledger_start m.device m.cache)).perform faults

end Turns

namespace Interleaving

variable {policy : Policy} {s : State} {keys : List SessionId} {i : Nat} {c : BegunCall} {a : Step}
    {w : Progress}
variable {k : a.Answer → Program (Except CallError CallAnswer)} {m : CachedDevice Device}
    {id : SessionId}

theorem open_answer {d : Device} {r : Request} {stage : Stage} (ha : stage.Admits r)
    (hid : id ∈ (d.answer r).2.sessions.keys) :
    stage.after r (d.answer r).1 = .opened id ∨ id ∈ d.sessions.keys ∧ stage ≠ .opened id := by
  have hown : stage = .opened id → r.session? = some id := by
    rintro rfl
    exact ha
  cases Device.answer_sessions d r with
  | unchanged ho hc hs =>
    rw [Stage.after_of_not_opened ho hc]
    rw [hs] at hid
    by_cases he : stage = .opened id
    · exact .inl he
    · exact .inr ⟨hid, he⟩
  | opened ho hs =>
    rw [hs, KeyMap.mem_keys_insert] at hid
    rcases hid with rfl | hid
    · exact .inl (Stage.after_of_opened ho)
    · refine .inr ⟨hid, fun he ↦ ?_⟩
      cases (Request.op_of_opened? ho).2.symm.trans (hown he)
  | moved hr hc hk hs =>
    rw [Stage.after_of_not_opened (Request.opened?_of_session? hr) hc]
    have hold : id ∈ d.sessions.keys := by
      rw [hs, KeyMap.mem_keys_insert] at hid
      rcases hid with rfl | hid
      · exact hk
      · exact hid
    by_cases he : stage = .opened id
    · exact .inl he
    · exact .inr ⟨hold, he⟩
  | @closed id' hr hs =>
    rw [hs, KeyMap.mem_keys_erase] at hid
    refine .inr ⟨hid.2, fun he ↦ ?_⟩
    have hclosing := hown he
    rw [hr] at hclosing
    exact hid.1 (Option.some_inj.1 hclosing).symm

theorem open_step (ha : w.Admits a) (hid : id ∈ (a.run m).2.device.sessions.keys) :
    (w.after a (a.run m).1).stage = .opened id ∨ id ∈ m.device.sessions.keys ∧
    w.stage ≠ .opened id := by
  cases a with
  | remote r => exact open_answer ha.1 hid
  | size | cache =>
    by_cases he : w.stage = .opened id
    · exact .inl he
    · exact .inr ⟨hid, he⟩

def State.inFlight (s : State) : Nat := s.calls.countP fun c ↦ !c.finished

/-- Every call is at some stage of its own, and what is open beside `keys` is a session that a
call has open. -/
def Held (keys : List SessionId) (s : State) : Prop :=
  ∃ stages : List (BegunCall × Progress), stages.map Prod.fst = s.calls ∧
    (∀ x ∈ stages, x.1.rest.Orderly (fun _ ↦ Settled) x.2) ∧
    ∀ id ∈ s.shared.device.sessions.keys, id ∈ keys ∨ ∃ x ∈ stages, x.2.stage = .opened id

theorem held_take (h : Held keys s) (hc : s.calls[i]? = some c) (hk : c.rest = .step a k) :
    Held keys (s.take i c a k) := by
  obtain ⟨stages, hcalls, hstages, hopen⟩ := h
  obtain ⟨⟨c', w⟩, hi, rfl⟩ : ∃ x, stages[i]? = some x ∧ x.1 = c := by
    rw [← hcalls, List.getElem?_map, Option.map_eq_some_iff] at hc
    exact hc
  have horderly := hstages _ (List.mem_of_getElem? hi)
  rw [hk] at horderly
  have hnew : ∀ y, y ∈ stages.set i y := fun y ↦ List.mem_set (List.getElem?_eq_some_iff.1 hi).1 y
  refine ⟨stages.set i ({ c' with rest := k (a.run s.shared).1 }, w.after a (a.run s.shared).1),
    ?_, ?_, ?_⟩
  · rw [List.map_set, hcalls]
    rfl
  · intro x hx
    rcases List.mem_or_eq_of_mem_set hx with hx | rfl
    · exact hstages x hx
    · exact horderly.2 _
  · intro id hid
    rcases open_step horderly.1 hid with hopened | ⟨hold, hother⟩
    · exact .inr ⟨_, hnew _, hopened⟩
    · refine (hopen id hold).imp_right fun ⟨x, hx, hxid⟩ ↦ ⟨x, ?_, hxid⟩
      obtain ⟨j, hj⟩ := List.mem_iff_getElem?.1 hx
      -- The call that took the step did not have this session open before, so another one has it.
      have hij : i ≠ j := by
        rintro rfl
        obtain rfl := Option.some_inj.1 (hi.symm.trans hj)
        exact hother hxid
      refine List.mem_iff_getElem?.2 ⟨j, ?_⟩
      rw [List.getElem?_set_ne hij, hj]

theorem held_next (choice : Choice) (h : Held keys s) : Held keys (next policy s choice) := by
  refine next_cases policy choice h ?_ (fun i c a k hc hk ↦ held_take h hc hk) fun _ _ _ ↦ h
  intro caller call _
  obtain ⟨stages, hcalls, hstages, hopen⟩ := h
  refine ⟨stages ++ [(⟨call, caller, call.program policy caller⟩, .start)], ?_, ?_, ?_⟩
  · rw [List.map_append, hcalls]
    rfl
  · intro x hx
    rcases List.mem_append.1 hx with hx | hx
    · exact hstages x hx
    · rw [List.mem_singleton.1 hx]
      exact call.orderly_program policy caller
  · intro id hid
    exact (hopen id hid).imp_right fun ⟨x, hx, hxid⟩ ↦ ⟨x, List.mem_append_left _ hx, hxid⟩

theorem openSessions_le_of_held (h : Held keys s) :
    s.shared.device.openSessions ≤ keys.length + s.inFlight := by
  obtain ⟨stages, hcalls, hstages, hopen⟩ := h
  have hsubset : s.shared.device.sessions.keys ⊆ keys ++ stages.filterMap (·.2.stage.session?) := by
    intro id hid
    rw [List.mem_append, List.mem_filterMap]
    refine (hopen id hid).imp_right fun ⟨x, hx, hxid⟩ ↦ ⟨x, hx, ?_⟩
    rw [hxid]
    rfl
  -- A call that has ended is settled, so it has no session.
  have hbusy : ∀ x ∈ stages, (x.2.stage.session?).isSome → !x.1.finished := by
    intro x hx hsome
    have horderly := hstages x hx
    rw [BegunCall.finished]
    split
    · rename_i hdone
      rw [hdone] at horderly
      have hsettled : x.2.stage.session? = none := horderly
      rw [hsettled] at hsome
      cases hsome
    · rfl
  have hcount : (stages.filterMap (·.2.stage.session?)).length ≤ s.inFlight := by
    rw [List.length_filterMap_eq_countP, State.inFlight, ← hcalls, List.countP_map]
    exact List.countP_mono_left hbusy
  have hlength := (List.subperm_of_subset s.shared.device.sessions.nodup hsubset).length_le
  rw [List.length_append] at hlength
  rw [Device.openSessions, KeyMap.size, ← List.length_map Prod.fst]
  exact hlength.trans (Nat.add_le_add_left hcount _)

end Interleaving

open Turns Interleaving

/-- Every call, on every state of a device in memory and with any faults armed before any of its
steps, closes the session that it opened, if it opened one: once, and as the last thing that it
asks for. It asks for nothing twice, and leaves open what was open before. Of calls that are
interleaved in any way, no more sessions are open at any time than were open before and calls
are in flight. -/
theorem sessions_closed (policy : Policy) (m : CachedDevice Device) (hm : m.device.Numbered) :
    (∀ caller (call : Call String) faults,
      Tidy m.device (perform (call.programOfText policy caller) m faults).2 ∧
      (perform (call.programOfText policy caller) m faults).2.shared.device.openSessions =
        m.device.openSessions) ∧
    ∀ schedule, (Interleaving.run policy ⟨m, [], []⟩ schedule).shared.device.openSessions ≤
      m.device.openSessions + (Interleaving.run policy ⟨m, [], []⟩ schedule).inFlight := by
  constructor
  · intro caller call faults
    have htidy := tidy_call policy caller call hm faults
    refine ⟨htidy, ?_⟩
    rw [Device.openSessions, htidy.sessions_eq, Device.openSessions]
  · intro schedule
    have hstart : Held m.device.sessions.keys ⟨m, [], []⟩ := ⟨[], rfl, nofun, fun _ hid ↦ .inl hid⟩
    have hheld : Held m.device.sessions.keys (Interleaving.run policy ⟨m, [], []⟩ schedule) :=
      run_induction policy hstart fun s choice _ h ↦ held_next choice h
    have hle := openSessions_le_of_held hheld
    rwa [KeyMap.keys, List.length_map] at hle

section Examples

def keeper : Caller := ⟨1000, 100, 7⟩

def noteFile : RemotePath := Device.logDirectory.child ⟨"note", by decide⟩

def noted : CachedDevice Device :=
  ⟨{ Device.px4 with tree := Device.px4.tree.insertFile noteFile [1, 2] }, .empty⟩

def writeAndCloseFail : List Faults :=
  [[], [], [(.write, .ofCode Errno.io), (.close, RemoteError.timeout)]]

def twoReads : List Choice :=
  [.start keeper (.read noteFile 2 0), .start keeper (.read noteFile 2 0), .advance 0, .advance 1,
    .arm .seek RemoteError.timeout, .advance 0, .advance 0, .advance 0, .advance 0, .advance 1]

example :
    (perform ((Call.write "/fs/microsd/log/note" [3] 0).programOfText .standard keeper) noted
      writeAndCloseFail).2.log =
    [⟨.close 0, false⟩, ⟨.write 0 [3], false⟩, ⟨.seek 0 0, true⟩,
      ⟨.openFile noteFile .write, true⟩] := by
      decide +kernel

theorem sessions_closed_writeAndCloseFail : noted.device.Numbered ∧
    (perform ((Call.write "/fs/microsd/log/note" [3] 0).programOfText .standard keeper) noted
      writeAndCloseFail).2.log.countP Exchange.closes = 1 ∧
    (perform ((Call.write "/fs/microsd/log/note" [3] 0).programOfText .standard keeper) noted
      writeAndCloseFail).2.shared.device.openSessions = 0 ∧
    (Interleaving.run .standard ⟨noted, [], []⟩ twoReads).shared.device.openSessions ≤ 1 := by
  have hnoted : noted.device.Numbered := nofun
  obtain ⟨hcalls, hschedules⟩ := sessions_closed .standard noted hnoted
  obtain ⟨htidy, hopen⟩ := hcalls keeper (.write "/fs/microsd/log/note" [3] 0) writeAndCloseFail
  refine ⟨hnoted, ?_, hopen, hschedules twoReads⟩
  rw [htidy.closes_eq_opens]
  decide +kernel

end Examples

end RemoteMount
