import RemoteMount.Call
import RemoteMount.Proofs.Memory.Sessions

namespace RemoteMount

/-- Where a call stands with the session that it works in. -/
inductive Stage
  | unopened
  | opened (id : SessionId)
  | closed
deriving DecidableEq

namespace Stage

def session? : Stage → Option SessionId
  | opened id => some id
  | unopened | closed => none

def after (stage : Stage) (r : Request) (x : Except RemoteError r.Reply) : Stage :=
  if r.op = .close then closed else (r.opened? x).elim stage opened

section After

variable {stage : Stage} {r : Request} {x : Except RemoteError r.Reply} {id : SessionId}

theorem after_of_not_opened (ho : r.opened? x = none) (hc : r.op ≠ .close) :
    stage.after r x = stage := by
  rw [after, if_neg hc, ho]
  rfl

theorem after_of_opened (ho : r.opened? x = some id) : stage.after r x = opened id := by
  have hc : r.op ≠ .close := by
    rw [(Request.op_of_opened? ho).1]
    exact nofun
  rw [after, if_neg hc, ho]
  rfl

theorem after_of_close (hc : r.op = .close) : stage.after r x = closed := if_pos hc

end After

/-- The requests that may be made at a stage: after a session was closed there are none. -/
def Admits : Stage → Request → Prop
  | unopened, r => r.session? = none
  | opened id, r => r.session? = some id
  | closed, _ => False

end Stage

/-- How far a call has come: its stage, and the kinds of requests it has made, the latest
first. -/
structure Progress where
  stage : Stage
  used : List RemoteOp

namespace Progress

def start : Progress := ⟨.unopened, []⟩

def after (w : Progress) : (s : Step) → s.Answer → Progress
  | .remote r, x => ⟨w.stage.after r x, r.op :: w.used⟩
  | .size _, _ | .cache _, _ => w

def Admits (w : Progress) : Step → Prop
  | .remote r => w.stage.Admits r ∧ r.op ∉ w.used
  | .size id => w.stage = .opened id
  | .cache _ => True

def Settled (w : Progress) : Prop := w.stage.session? = none

end Progress

namespace Program

variable {α β : Type} {p : Program α} {f : α → Program β} {w : Progress} {Q R : α → Progress → Prop}
variable {T : β → Progress → Prop}

/-- All steps of the program are admitted, and it ends as `Q` says. -/
def Orderly (Q : α → Progress → Prop) : Program α → Progress → Prop
  | done a, w => Q a w
  | step s next, w => w.Admits s ∧ ∀ x, (next x).Orderly Q (w.after s x)

theorem Orderly.bind (hp : p.Orderly Q w) (hf : ∀ a w', Q a w' → (f a).Orderly T w') :
    (p >>= f).Orderly T w := by
  induction p generalizing w with
  | done a => exact hf a w hp
  | step s next ih => exact ⟨hp.1, fun x ↦ ih x (hp.2 x)⟩

theorem Orderly.map {g : α → β} (h : p.Orderly (fun a w' ↦ T (g a) w') w) :
    (g <$> p).Orderly T w := by
  rw [map_eq_pure_bind]
  exact h.bind fun _ _ hq ↦ hq

end Program

open Program
open Progress (Settled)

namespace Filesystem

variable {policy : Policy} {caller : Caller} {dir path old new : RemotePath} {α : Type}
    {w : Progress}
variable {used : List RemoteOp}

theorem orderly_refresh (hu : .listdir ∉ used) :
    (refresh policy caller dir).Orderly (fun _ w ↦ w = ⟨.unopened, .listdir :: used⟩)
      ⟨.unopened, used⟩ := by
  refine ⟨trivial, fun generation ↦ ⟨⟨rfl, hu⟩, ?_⟩⟩
  rintro (e | rows)
  · rfl
  · exact ⟨trivial, fun _ ↦ rfl⟩

theorem orderly_invalidateAll (touched : List RemotePath) :
    (invalidateAll touched).Orderly (fun _ w' ↦ w' = w) w := by
  induction touched with
  | nil => rfl
  | cons dir touched ih => exact ⟨trivial, fun _ ↦ ih⟩

theorem orderly_mutate {touched : List RemotePath} {mutation : Program (Except RemoteError Unit)}
    (h : mutation.Orderly (fun _ ↦ Settled) w) :
    (mutate touched mutation).Orderly (fun _ ↦ Settled) w := by
  refine (orderly_invalidateAll touched).bind fun _ w' hw ↦ ?_
  subst hw
  refine h.bind fun result w' hsettled ↦ (orderly_invalidateAll touched).bind fun _ w'' hw ↦ ?_
  subst hw
  exact hsettled

theorem orderly_remotely {p : Program (Except RemoteError α)} (h : p.Orderly (fun _ ↦ Settled) w) :
    (remotely p).Orderly (fun _ ↦ Settled) w :=
  h.bind fun _ _ hsettled ↦ hsettled

theorem orderly_request {r : Request} (hs : r.session? = none) (ho : ∀ x, r.opened? x = none)
    (hc : r.op ≠ .close)
    (hu : r.op ∉ used) : (request r).Orderly (fun _ ↦ Settled) ⟨.unopened, used⟩ := by
  refine ⟨⟨hs, hu⟩, fun x ↦ ?_⟩
  change (Stage.unopened.after r x).session? = none
  rw [Stage.after_of_not_opened (ho x) hc]
  rfl

theorem orderly_in_session {id : SessionId} {r : Request}
    {next : Except RemoteError r.Reply → Program α}
    {Q : α → Progress → Prop} (hs : r.session? = some id) (hc : r.op ≠ .close) (hu : r.op ∉ used)
    (h : ∀ x, (next x).Orderly Q ⟨.opened id, r.op :: used⟩) :
    (Program.step (.remote r) next).Orderly Q ⟨.opened id, used⟩ := by
  refine ⟨⟨hs, hu⟩, fun x ↦ ?_⟩
  rw [Progress.after, Stage.after_of_not_opened (Request.opened?_of_session? hs) hc]
  exact h x

theorem orderly_withSession {mode : OpenMode} {body : SessionId → Program (Except RemoteError α)}
    (hu : .openFile ∉ used) (hb : ∀ id,
      (body id).Orderly (fun _ w ↦ w.stage = .opened id ∧ .close ∉ w.used)
      ⟨.opened id, .openFile :: used⟩) :
    (withSession path mode body).Orderly (fun _ ↦ Settled) ⟨.unopened, used⟩ := by
  refine ⟨⟨rfl, hu⟩, ?_⟩
  rintro (e | id)
  · rfl
  · refine (hb id).bind fun value w hw ↦ ⟨⟨?_, hw.2⟩, fun closed ↦ ?_⟩
    · rw [hw.1]
      rfl
    · cases value <;> cases closed <;> rfl

theorem orderly_getattr : (getattr policy caller path).Orderly (fun _ ↦ Settled) .start := by
  unfold getattr
  split
  · rfl
  · refine ⟨trivial, ?_⟩
    rintro (_ | a)
    · refine (orderly_refresh List.not_mem_nil).bind fun listed w hw ↦ ?_
      subst hw
      rcases listed with e | records
      · rfl
      · dsimp only
        split <;> rfl
    · rfl

theorem orderly_readdir : (readdir policy caller path).Orderly (fun _ ↦ Settled) .start := by
  refine (orderly_refresh List.not_mem_nil).bind fun listed w hw ↦ ?_
  subst hw
  cases listed <;> rfl

theorem orderly_mkdir : (mkdir path).Orderly (fun _ ↦ Settled) .start :=
  orderly_remotely (orderly_mutate (orderly_request rfl (fun _ ↦ rfl) nofun List.not_mem_nil))

theorem orderly_unlink : (unlink path).Orderly (fun _ ↦ Settled) .start :=
  orderly_remotely (orderly_mutate (orderly_request rfl (fun _ ↦ rfl) nofun List.not_mem_nil))

theorem orderly_rmdir : (rmdir path).Orderly (fun _ ↦ Settled) .start :=
  ⟨trivial, fun _ ↦ orderly_remotely
    (orderly_mutate (orderly_request rfl (fun _ ↦ rfl) nofun List.not_mem_nil))⟩

theorem orderly_rename : (rename old new).Orderly (fun _ ↦ Settled) .start := by
  have hmoved : (remotely (mutate [old.parent, new.parent] (request (.rename old new)))).Orderly
      (fun _ ↦ Settled) .start :=
    orderly_remotely (orderly_mutate (orderly_request rfl (fun _ ↦ rfl) nofun List.not_mem_nil))
  refine ⟨trivial, fun _ ↦ ⟨trivial, fun _ ↦ hmoved.bind ?_⟩⟩
  exact fun _ _ hsettled ↦ ⟨trivial, fun _ ↦ ⟨trivial, fun _ ↦ hsettled⟩⟩

theorem orderly_create (hu : .openFile ∉ used) (hc : .close ∉ used) :
    (create path).Orderly (fun _ ↦ Settled) ⟨.unopened, used⟩ := by
  refine orderly_remotely (orderly_mutate (orderly_withSession hu fun id ↦ ⟨rfl, ?_⟩))
  rw [List.mem_cons]
  rintro (h | h)
  · cases h
  · exact hc h

theorem orderly_createNew : (createNew policy caller path).Orderly (fun _ ↦ Settled) .start := by
  refine (orderly_refresh List.not_mem_nil).bind fun listed w hw ↦ ?_
  subst hw
  rcases listed with e | records
  · rfl
  · dsimp only
    split
    · rfl
    · exact orderly_create (by decide) (by decide)

theorem orderly_read {max : Nat} {offset : UInt64} :
    (read path max offset).Orderly (fun _ ↦ Settled) .start := by
  refine orderly_remotely (orderly_withSession List.not_mem_nil fun id ↦
    ⟨rfl, fun length ↦ ⟨trivial, fun _ ↦ ?_⟩⟩)
  refine orderly_in_session rfl nofun (by simp [Request.op]) ?_
  rintro (e | u)
  · exact ⟨rfl, by simp [Request.op]⟩
  · exact orderly_in_session rfl nofun (by simp [Request.op]) fun _ ↦ ⟨rfl, by simp [Request.op]⟩

theorem orderly_write {data : Bytes} {offset : UInt64} :
    (write path data offset).Orderly (fun _ ↦ Settled) .start := by
  refine orderly_remotely (orderly_withSession List.not_mem_nil fun id ↦ ?_)
  refine orderly_in_session rfl nofun (by simp [Request.op]) ?_
  rintro (e | u)
  · exact ⟨rfl, by simp [Request.op]⟩
  · refine orderly_in_session rfl nofun (by simp [Request.op]) ?_
    rintro (e | count)
    · exact ⟨rfl, by simp [Request.op]⟩
    · exact ⟨rfl, fun length ↦ ⟨trivial, fun _ ↦ ⟨rfl, by simp [Progress.after, Request.op]⟩⟩⟩

theorem orderly_truncate {length : UInt64} :
    (truncate path length).Orderly (fun _ ↦ Settled) .start := by
  have hcut : (withSession path .write fun id ↦ request (.truncate id length)).Orderly
      (fun _ ↦ Settled) .start := by
    refine orderly_withSession List.not_mem_nil fun id ↦ ?_
    exact orderly_in_session rfl nofun (by simp [Request.op]) fun _ ↦ ⟨rfl, by simp [Request.op]⟩
  refine hcut.bind fun cut w hsettled ↦ ?_
  rcases cut with e | u
  · exact hsettled
  · exact ⟨trivial, fun _ ↦ hsettled⟩

end Filesystem

theorem Call.orderly_program (policy : Policy) (caller : Caller) (call : Call RemotePath) :
    (call.program policy caller).Orderly (fun _ ↦ Settled) .start := by
  cases call with
  | getattr path => exact Filesystem.orderly_getattr.map
  | readdir path => exact Filesystem.orderly_readdir.map
  | mkdir path => exact Filesystem.orderly_mkdir.map
  | rmdir path => exact Filesystem.orderly_rmdir.map
  | unlink path => exact Filesystem.orderly_unlink.map
  | create path => exact (Filesystem.orderly_create List.not_mem_nil List.not_mem_nil).map
  | createNew path => exact Filesystem.orderly_createNew.map
  | read path max offset => exact Filesystem.orderly_read.map
  | write path data offset => exact Filesystem.orderly_write.map
  | rename old new => exact Filesystem.orderly_rename.map
  | truncate path length => exact Filesystem.orderly_truncate.map
  | destroy => exact Orderly.map ⟨trivial, fun _ ↦ rfl⟩

theorem Call.orderly_programOfText (policy : Policy) (caller : Caller) (call : Call String) :
    (call.programOfText policy caller).Orderly (fun _ ↦ Settled) .start := by
  unfold programOfText
  split
  · exact Call.orderly_program policy caller _
  · rfl

end RemoteMount
