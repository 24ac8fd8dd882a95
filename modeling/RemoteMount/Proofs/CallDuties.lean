import RemoteMount.Proofs.Duties
import RemoteMount.Proofs.Interleaving

namespace RemoteMount

open Program

namespace Filesystem

variable {policy : Policy} {caller : Caller} {naming : Bool} {owed owed' : Duty → Prop}
    {known : Fact → Prop}
variable {dir path old new : RemotePath} {α : Type}

theorem keeps_refresh : (refresh policy caller dir).Keeps policy caller naming owed known := by
  refine ⟨trivial, fun generation ↦ ⟨⟨fun _ h ↦ h.elim, fun _ h ↦ nomatch h⟩, ?_⟩⟩
  intro x
  rcases x with e | rows
  · trivial
  · exact ⟨⟨rows, .inr ⟨generation, .inr rfl, rfl⟩, rfl⟩, fun _ ↦ trivial⟩

theorem keeps_quiet {r : Request} {next : Except RemoteError r.Reply → Program α}
    (hn : ∀ p, ¬r.Names p) (hs : r.stores? = none)
    (h : ∀ x, (next x).Keeps policy caller naming owed (Fact.After known (.remote r) x)) :
    (Program.step (.remote r) next).Keeps policy caller naming owed known := by
  refine ⟨⟨fun p hp ↦ (hn p hp).elim, fun id hid ↦ ?_⟩, h⟩
  rw [hs] at hid
  cases hid

theorem keeps_request {r : Request} (hn : ∀ p, r.Names p → naming = true ∧ owed (.drop p.parent))
    (hs : r.stores? = none) : (request r).Keeps policy caller naming owed known := by
  refine ⟨⟨fun p hp ↦ ⟨(hn p hp).1, fun _ ↦ .inl (hn p hp).2⟩, fun id hid ↦ ?_⟩, fun _ ↦ trivial⟩
  rw [hs] at hid
  cases hid

theorem keeps_invalidateAll (touched : List RemotePath) :
    (invalidateAll touched).Keeps policy caller naming owed known := by
  induction touched with
  | nil => trivial
  | cons dir touched ih => exact ⟨trivial, fun _ ↦ ih⟩

theorem invalidateAll_meets {touched : List RemotePath} (h : dir ∈ touched) :
    (invalidateAll touched).Meets (.drop dir) := by
  induction touched with
  | nil => cases h
  | cons dir' touched ih =>
    rcases List.mem_cons.1 h with he | h
    · exact .inl he
    · exact .inr fun _ _ ↦ ih h

theorem keeps_mutate {touched : List RemotePath} {mutation : Program (Except RemoteError Unit)}
    (hm : mutation.Keeps policy caller naming owed' known)
    (ho : ∀ duty, owed' duty → owed duty ∨ ∃ dir ∈ touched, duty = .drop dir) :
    (mutate touched mutation).Keeps policy caller naming owed known := by
  refine (keeps_invalidateAll touched).bind (fun _ ↦ hm.bind (fun result ↦ ?_) ?_) fun _ h ↦ .inl h
  · exact (keeps_invalidateAll touched).bind (fun _ ↦ trivial) fun _ h ↦ .inl h
  · intro duty hd
    refine (ho duty hd).imp_right ?_
    rintro ⟨dir, hdir, rfl⟩ result
    exact (invalidateAll_meets hdir).bind

theorem keeps_mutate_parent {mutation : Program (Except RemoteError Unit)}
    (hm : mutation.Keeps policy caller naming (· = .drop path.parent) known) :
    (mutate [path.parent] mutation).Keeps policy caller naming owed known :=
  keeps_mutate hm fun _ hd ↦ .inr ⟨_, List.mem_singleton_self _, hd⟩

theorem keeps_request_at {r : Request} (hn : ∀ p, r.Names p → p = path) (hs : r.stores? = none) :
    (request r).Keeps policy caller true (· = .drop path.parent) known :=
  keeps_request (fun p hp ↦ ⟨rfl, by rw [hn p hp]⟩) hs

theorem keeps_remotely {p : Program (Except RemoteError α)}
    (h : p.Keeps policy caller naming owed known) :
    (remotely p).Keeps policy caller naming owed known :=
  h.bind (fun _ ↦ trivial) fun _ hd ↦ .inl hd

theorem keeps_getattr : (getattr policy caller path).Keeps policy caller naming owed known := by
  unfold getattr
  split
  · trivial
  · refine ⟨trivial, ?_⟩
    intro x
    rcases x with _ | a
    · refine keeps_refresh.bind ?_ fun _ h ↦ .inl h
      intro x
      rcases x with e | records
      · trivial
      · dsimp only
        split <;> trivial
    · trivial

theorem keeps_readdir : (readdir policy caller path).Keeps policy caller naming owed known := by
  refine keeps_refresh.bind ?_ fun _ h ↦ .inl h
  rintro (e | records) <;> trivial

theorem keeps_mkdir : (mkdir path).Keeps policy caller true owed known :=
  keeps_remotely (keeps_mutate_parent (keeps_request_at (fun _ hp ↦ hp) rfl))

theorem keeps_unlink : (unlink path).Keeps policy caller true owed known :=
  keeps_remotely (keeps_mutate_parent (keeps_request_at (fun _ hp ↦ hp) rfl))

theorem keeps_rmdir : (rmdir path).Keeps policy caller true owed known :=
  ⟨trivial, fun _ ↦ keeps_remotely (keeps_mutate_parent (keeps_request_at (fun _ hp ↦ hp) rfl))⟩

theorem keeps_withSession {mode : OpenMode} {body : SessionId → Program (Except RemoteError α)}
    (hn : ∀ p, (Request.openFile path mode).Names p → naming = true ∧ owed (.drop p.parent))
    (hb : ∀ id, (body id).Keeps policy caller naming owed fun f ↦ known f ∨ f = .opened id path) :
    (withSession path mode body).Keeps policy caller naming owed known := by
  refine ⟨⟨fun p hp ↦ ⟨(hn p hp).1, fun _ ↦ .inl (hn p hp).2⟩, fun _ h ↦ nomatch h⟩, ?_⟩
  intro x
  rcases x with e | id
  · trivial
  · refine (hb id).bind (fun value ↦ keeps_quiet (fun _ h ↦ h.elim) rfl ?_) fun _ h ↦ .inl h
    rintro (e | u) <;> cases value <;> trivial

theorem keeps_create : (create path).Keeps policy caller true owed known := by
  refine keeps_remotely (keeps_mutate_parent
    (keeps_withSession (fun p hp ↦ ⟨rfl, ?_⟩) fun _ ↦ trivial))
  rw [show p = path from hp]

theorem keeps_createNew : (createNew policy caller path).Keeps policy caller true owed known := by
  refine keeps_refresh.bind ?_ fun _ h ↦ .inl h
  intro x
  rcases x with e | records
  · trivial
  · dsimp only
    split
    · trivial
    · exact keeps_create

/-- A moved name is in the listing of its directory, or in one that the two trees drop
afterwards. -/
theorem keeps_rename : (rename old new).Keeps policy caller true owed known := by
  have hrequest : (request (.rename old new)).Keeps policy caller true
      (fun d ↦ ∃ p : RemotePath, d = .drop p.parent ∧ (p.within old = true ∨ p.within new = true))
        (fun _ ↦ False) :=
    keeps_request (fun p hp ↦ ⟨rfl, p, rfl, hp⟩) rfl
  have hmutate : (mutate [old.parent, new.parent] (request (.rename old new))).Keeps policy
      caller true
      (fun d ↦ ∃ dir, d = .drop dir ∧ (dir.within old = true ∨ dir.within new = true))
        (fun _ ↦ False) := by
    refine keeps_mutate hrequest ?_
    intro d hx
    obtain ⟨p, rfl, hp | hp⟩ := hx
    · by_cases he : p = old
      · exact .inr ⟨_, List.mem_cons_self, by rw [he]⟩
      · exact .inl ⟨_, rfl, .inl (RemotePath.parent_within hp he)⟩
    · by_cases he : p = new
      · exact .inr ⟨_, List.mem_cons_of_mem _ List.mem_cons_self, by rw [he]⟩
      · exact .inl ⟨_, rfl, .inr (RemotePath.parent_within hp he)⟩
  refine ⟨trivial, fun _ ↦ ⟨trivial, fun _ ↦ ?_⟩⟩
  refine ((keeps_remotely hmutate).mono fun _ h ↦ h.elim).bind ?_ ?_
  · exact fun _ ↦ ⟨trivial, fun _ ↦ ⟨trivial, fun _ ↦ trivial⟩⟩
  · intro d hx
    obtain ⟨dir, rfl, hd | hd⟩ := hx
    · exact .inr fun _ ↦ .inl hd
    · exact .inr fun _ ↦ .inr fun _ _ ↦ .inl hd

theorem keeps_read {max : Nat} {offset : UInt64} :
    (read path max offset).Keeps policy caller naming owed known := by
  refine keeps_remotely (keeps_withSession (fun _ h ↦ h.elim) fun id ↦
    ⟨trivial, fun length ↦ ⟨trivial, fun _ ↦ ?_⟩⟩)
  refine keeps_quiet (fun _ h ↦ h.elim) rfl ?_
  intro x
  rcases x with e | u
  · trivial
  · exact keeps_request (fun _ h ↦ h.elim) rfl

theorem keeps_write {data : Bytes} {offset : UInt64} :
    (write path data offset).Keeps policy caller naming owed known := by
  refine keeps_remotely (keeps_withSession (fun _ h ↦ h.elim) fun id ↦
    keeps_quiet (fun _ h ↦ h.elim) rfl ?_)
  intro x
  rcases x with e | u
  · trivial
  · refine ⟨⟨fun _ h ↦ h.elim, fun id' h ↦ ⟨path, ?_, fun count ↦ .inr ?_⟩⟩, ?_⟩
    · obtain rfl : id = id' := Option.some_inj.1 h
      exact .inr rfl
    · exact .inr fun length _ ↦ .inl (.inr ⟨_, rfl⟩)
    · intro x
      rcases x with e | count
      · trivial
      · exact ⟨trivial, fun length ↦ ⟨trivial, fun _ ↦ trivial⟩⟩

/-- The size is restated after the session was closed, so only if closing it succeeds. -/
theorem keeps_truncate {length : UInt64} :
    (truncate path length).Keeps policy caller naming owed known := by
  refine keeps_quiet (fun _ h ↦ h.elim) rfl ?_
  intro y
  rcases y with e | id
  · trivial
  · refine ⟨⟨fun _ h ↦ h.elim, fun id' h ↦ ⟨path, ?_, fun u ↦ .inr (.inr ?_)⟩⟩, ?_⟩
    · obtain rfl : id = id' := Option.some_inj.1 h
      exact .inr rfl
    · intro x hx
      obtain ⟨u', rfl⟩ := hx
      exact .inl (.inr ⟨_, rfl⟩)
    · intro y
      rcases y with e | u
      · refine keeps_quiet (fun _ h ↦ h.elim) rfl ?_
        rintro (e | u) <;> trivial
      · refine keeps_quiet (fun _ h ↦ h.elim) rfl ?_
        intro y
        rcases y with e | u
        · trivial
        · exact ⟨trivial, fun _ ↦ trivial⟩

end Filesystem

theorem Call.keeps_program (policy : Policy) (caller : Caller) (call : Call RemotePath)
    (owed : Duty → Prop)
    (known : Fact → Prop) : (call.program policy caller).Keeps policy caller call.changesNames owed
      known := by
  cases call with
  | getattr path => exact Filesystem.keeps_getattr.map
  | readdir path => exact Filesystem.keeps_readdir.map
  | mkdir path => exact Filesystem.keeps_mkdir.map
  | rmdir path => exact Filesystem.keeps_rmdir.map
  | unlink path => exact Filesystem.keeps_unlink.map
  | create path => exact Filesystem.keeps_create.map
  | createNew path => exact Filesystem.keeps_createNew.map
  | read path max offset => exact Filesystem.keeps_read.map
  | write path data offset => exact Filesystem.keeps_write.map
  | rename old new => exact Filesystem.keeps_rename.map
  | truncate path length => exact Filesystem.keeps_truncate.map
  | destroy => exact Keeps.map ⟨trivial, fun _ ↦ trivial⟩

end RemoteMount
