import RemoteMount.Proofs.FailureReports
import RemoteMount.Proofs.Mount.Answers

namespace RemoteMount

open Program

namespace Program

variable {σ α β ε : Type} [RemoteDevice σ]

def andThen (p : Program (Except ε α)) (q : α → Program (Except ε β)) : Program (Except ε β) := do
  match ← p with
  | .error e => return .error e
  | .ok a => q a

/-- Keeps no more of what a program finds than whether and how it failed. -/
def silent (p : Program (Except ε α)) : Program (Except ε Unit) := Except.map (fun _ ↦ ()) <$> p

theorem run_andThen (p : Program (Except ε α)) (q : α → Program (Except ε β)) (b : CachedDevice σ) :
    (p.andThen q).run b = match p.run b with
      | (.error e, b') => (.error e, b')
      | (.ok a, b') => (q a).run b' := by
  rw [andThen, Program.run, interpret_bind]
  change _ = match p.interpret Step.run b with | (.error e, b') => _ | (.ok a, b') => _
  generalize p.interpret Step.run b = x
  obtain ⟨x, b'⟩ := x
  cases x <;> rfl

theorem run_silent (p : Program (Except ε α)) (b : CachedDevice σ) :
    (p.silent).run b = ((p.run b).1.map fun _ ↦ (), (p.run b).2) := run_map _ _ _

end Program

namespace Mount

variable {σ α β : Type}

def inspect (m : Mount σ) (caller : Caller) (ino : Nat) : Program (Except CallError Unit) :=
  andThen (.done (m.pathOf ino)) fun path ↦ silent (Filesystem.getattr m.config.policy caller path)

def steps (m : Mount σ) (caller : Caller) : Callback → Program (Except CallError Unit)
  | .lookup parent name =>
    andThen (.done (m.childOf parent name)) fun path ↦
      silent (Filesystem.getattr m.config.policy caller path)
  | .getattr ino => m.inspect caller ino
  | .setattr ino changes =>
    andThen (.done (m.pathOf ino)) fun path ↦
      if changes.mode.isSome || changes.uid.isSome || changes.gid.isSome then
        .done (.error (.notPermitted s!"{path}: ownership and mode are fixed by the mount policy"))
      else match changes.size with
        | none => m.inspect caller ino
        | some size => andThen (Filesystem.truncate path size) fun _ ↦ m.inspect caller ino
  | .mkdir parent name =>
    andThen (.done (m.childOf parent name)) fun path ↦
      andThen (Filesystem.mkdir path) fun _ ↦
        silent (Filesystem.getattr m.config.policy caller path)
  | .create parent name flags =>
    andThen (.done ((OpenMode.ofFlags flags).mapError .ofUnsupportedFlags)) fun _ ↦
      andThen (.done (m.childOf parent name)) fun path ↦
        andThen (if OpenFlags.has flags OpenFlags.excl
          then Filesystem.createNew m.config.policy caller path else Filesystem.create path) fun _ ↦
            silent (Filesystem.getattr m.config.policy caller path)
  | .unlink parent name => andThen (.done (m.childOf parent name)) Filesystem.unlink
  | .rmdir parent name => andThen (.done (m.childOf parent name)) Filesystem.rmdir
  | .rename parent name newParent newName flags =>
    if flags ≠ 0 then .done (.error (.ofRenameFlags flags))
    else andThen (.done (m.childOf parent name)) fun old ↦
      andThen (.done (m.childOf newParent newName)) fun new ↦ Filesystem.rename old new
  | .openFile ino flags => .done (m.openFile ino flags)
  | .opendir ino => silent (.done (m.pathOf ino))
  | .read ino max offset =>
    andThen (.done (m.positionOf ino offset)) fun (path, offset) ↦
      silent (Filesystem.read path max offset)
  | .write ino data offset =>
    andThen (.done (m.positionOf ino offset)) fun (path, offset) ↦
      andThen (Filesystem.write path data offset) fun n ↦
        .done (if n < UInt32.size then .ok () else .error (.invalidArgument s!"write of {n} bytes"))
  | .readdir ino _ _ =>
    andThen (.done (m.pathOf ino)) fun path ↦
      silent (Filesystem.readdir m.config.policy caller path)
  | .getxattr .. | .setxattr .. | .listxattr _ | .removexattr .. => .done (.error .notSupported)
  | .forget .. | .forgetAll _ | .release _ | .releasedir _ | .flush _ | .fsync _ | .statfs _ =>
    .done (.ok ())
  | .destroy => Except.ok <$> Filesystem.destroy

variable [RemoteDevice σ] {m : Mount σ} {caller : Caller} {path : RemotePath}

/-- The answer fails as the program does, and leaves the device and the cache as the program
does. -/
def RunsAs (m : Mount σ) (x : Except CallError α × Mount σ)
    (p : Program (Except CallError Unit)) : Prop :=
  failureOf x.1 = failureOf (p.run m.base).1 ∧ x.2.base = (p.run m.base).2

theorem failureOf_map {ε : Type} (x : Except ε α) (f : α → β) :
    failureOf (x.map f) = failureOf x := by
  cases x <;> rfl

theorem RunsAs.reply {x : Except CallError α × Mount σ} {p : Program (Except CallError Unit)}
    {f : α → Reply} (h : m.RunsAs x p) : m.RunsAs (reply x f) p :=
  ⟨(failureOf_map _ _).trans h.1, h.2⟩

theorem runsAs_done (x : Except CallError α) :
    m.RunsAs (x.map fun _ ↦ Reply.opened, m) (silent (.done x)) :=
  ⟨(failureOf_map _ _).trans (failureOf_map _ _).symm, rfl⟩

theorem runsAs_silent {p : Program (Except CallError β)} {x : Except CallError α × Mount σ}
    (hx : failureOf x.1 = failureOf (p.run m.base).1) (hb : x.2.base = (p.run m.base).2) :
    m.RunsAs x (silent p) := by
  rw [RunsAs, run_silent]
  exact ⟨hx.trans (failureOf_map _ _).symm, hb⟩

theorem runsAs_andThen {p : Program (Except CallError β)} {q : β → Program (Except CallError Unit)}
    {x : Except CallError α × Mount σ}
    (he : ∀ e b, p.run m.base = (.error e, b) → failureOf x.1 = some e ∧ x.2.base = b)
    (hn : ∀ a b, p.run m.base = (.ok a, b) → RunsAs { m with base := b } x (q a)) :
    m.RunsAs x (p.andThen q) := by
  rw [RunsAs, run_andThen]
  cases hp : p.run m.base with
  | mk y b =>
    cases y with
    | error e => exact he e b hp
    | ok a => exact hn a b hp

theorem runsAs_checked {y : Except CallError β} {q : β → Program (Except CallError Unit)}
    {x : Except CallError α × Mount σ} (he : ∀ e, y = .error e → x = (.error e, m))
    (hn : ∀ a, y = .ok a → m.RunsAs x (q a)) : m.RunsAs x (andThen (.done y) q) := by
  cases y with
  | error e =>
    rw [he e rfl]
    exact ⟨rfl, rfl⟩
  | ok a => exact hn a rfl

theorem runsAs_entryFor (m : Mount σ) (caller : Caller) (path : RemotePath) :
    m.RunsAs (m.entryFor caller path)
      (silent (Filesystem.getattr m.config.policy caller path)) := by
  unfold entryFor
  rw [call_eq]
  cases hx : (Filesystem.getattr m.config.policy caller path).run m.base with
  | mk x b => cases x <;> exact runsAs_silent (by rw [hx]; rfl) (by rw [hx])

theorem runsAs_getattr (m : Mount σ) (caller : Caller) (ino : Nat) :
    m.RunsAs (m.getattr caller ino) (m.inspect caller ino) := by
  refine runsAs_checked (fun e he ↦ by rw [getattr, he]) fun path hp ↦ ?_
  rw [getattr, hp]
  dsimp only
  rw [call_eq]
  cases hx : (Filesystem.getattr m.config.policy caller path).run m.base with
  | mk x b => cases x <;> exact runsAs_silent (by rw [hx]; rfl) (by rw [hx])

theorem runsAs_lookup (parent : Nat) (name : FileName) :
    m.RunsAs (m.lookup caller parent name) (m.steps caller (.lookup parent name)) := by
  refine runsAs_checked (fun e he ↦ by rw [lookup, he]) fun path hp ↦ ?_
  rw [lookup, hp]
  exact runsAs_entryFor m caller path

theorem runsAs_setattr (ino : Nat) (changes : Changes) :
    m.RunsAs (m.setattr caller ino changes) (m.steps caller (.setattr ino changes)) := by
  refine runsAs_checked (fun e he ↦ by rw [setattr, he]) fun path hp ↦ ?_
  rw [setattr, hp]
  dsimp only
  split
  · exact ⟨rfl, rfl⟩
  · cases changes.size with
    | none => exact runsAs_getattr m caller ino
    | some size =>
      dsimp only
      rw [call_eq]
      refine runsAs_andThen (fun e b hx ↦ ?_) fun u b hx ↦ ?_
      · rw [hx]
        exact ⟨rfl, rfl⟩
      · rw [hx]
        exact runsAs_getattr { m with base := b } caller ino

theorem runsAs_make {path : RemotePath} {p : Program (Except CallError Unit)}
    {x : Except CallError FileAttributes × Mount σ}
    (hx : x = match m.call p with
      | (.error e, m) => (.error e, m)
      | (.ok _, m) => m.entryFor caller path) :
    m.RunsAs x (p.andThen fun _ ↦ silent (Filesystem.getattr m.config.policy caller path)) := by
  subst hx
  rw [call_eq]
  refine runsAs_andThen (fun e b hx ↦ ?_) fun u b hx ↦ ?_
  · rw [hx]
    exact ⟨rfl, rfl⟩
  · rw [hx]
    exact runsAs_entryFor { m with base := b } caller path

theorem runsAs_mkdir (parent : Nat) (name : FileName) :
    m.RunsAs (m.mkdir caller parent name) (m.steps caller (.mkdir parent name)) := by
  refine runsAs_checked (fun e he ↦ by rw [mkdir, he]) fun path hp ↦ runsAs_make ?_
  rewrite [mkdir, hp]
  rfl

theorem runsAs_create (parent : Nat) (name : FileName) (flags : UInt32) :
    m.RunsAs (m.create caller parent name flags) (m.steps caller (.create parent name flags)) := by
  cases hmode : OpenMode.ofFlags flags with
  | error e =>
    rw [create, steps, hmode]
    exact ⟨rfl, rfl⟩
  | ok mode =>
    rw [steps, hmode]
    change m.RunsAs _ (andThen (.done (m.childOf parent name)) _)
    refine runsAs_checked (fun e he ↦ by rw [create, hmode, he]) fun path hp ↦ runsAs_make ?_
    rewrite [create, hmode, hp]
    rfl

theorem runsAs_remove {parent : Nat} {name : FileName}
    {removal : RemotePath → Program (Except CallError Unit)} :
    m.RunsAs (m.remove parent name removal) (andThen (.done (m.childOf parent name)) removal) := by
  refine runsAs_checked (fun e he ↦ by rw [remove, he]) fun path hp ↦ ?_
  rw [remove, hp]
  dsimp only
  rw [call_eq]
  cases hx : (removal path).run m.base with
  | mk x b => cases x <;> exact ⟨by rw [hx], by rw [hx]⟩

theorem runsAs_rename (parent : Nat) (name : FileName) (newParent : Nat) (newName : FileName)
    (flags : UInt32) :
    m.RunsAs (m.rename parent name newParent newName flags)
      (m.steps caller (.rename parent name newParent newName flags)) := by
  rw [rename, steps]
  split
  · exact ⟨rfl, rfl⟩
  · refine runsAs_checked (fun e he ↦ by rw [he]) fun old ho ↦ ?_
    rw [ho]
    refine runsAs_checked (fun e he ↦ by rw [he]) fun new hn ↦ ?_
    rw [hn]
    dsimp only
    rw [call_eq]
    cases hx : (Filesystem.rename old new).run m.base with
    | mk x b => cases x <;> exact ⟨by rw [hx], by rw [hx]⟩

theorem runsAs_read (ino max : Nat) (offset : Int) :
    m.RunsAs (m.read ino max offset) (m.steps caller (.read ino max offset)) := by
  refine runsAs_checked (fun e he ↦ by rw [read, he]) fun place hp ↦ ?_
  rw [read, hp]
  exact runsAs_silent rfl rfl

theorem runsAs_write (ino : Nat) (data : Bytes) (offset : Int) :
    m.RunsAs (m.write ino data offset) (m.steps caller (.write ino data offset)) := by
  refine runsAs_checked (fun e he ↦ by rw [write, he]) fun place hp ↦ ?_
  rw [write, hp]
  dsimp only
  rw [call_eq]
  refine runsAs_andThen (fun e b hx ↦ ?_) fun n b hx ↦ ?_
  · rw [hx]
    exact ⟨rfl, rfl⟩
  · rw [hx]
    dsimp only
    split <;> exact ⟨rfl, rfl⟩

theorem runsAs_readdir (ino : Nat) (offset : Int) (room : Nat) :
    m.RunsAs (m.readdir caller ino offset room) (m.steps caller (.readdir ino offset room)) := by
  have hall : m.RunsAs (m.allRows caller ino) (m.steps caller (.readdir ino offset room)) := by
    refine runsAs_checked (fun e he ↦ by rw [allRows, he]) fun path hp ↦ ?_
    have hnames : ∀ rows, ((Filesystem.readdir m.config.policy caller path).run m.base).1 =
        .ok rows →
        ∀ row ∈ rows, row.name = "." ∨ row.name = ".." ∨ ∃ p, path.join row.name = .ok p :=
      fun _ h ↦ names_of_readdir h
    rw [allRows, hp]
    dsimp only
    rw [call_eq]
    cases hx : (Filesystem.readdir m.config.policy caller path).run m.base with
    | mk x b =>
      rw [hx] at hnames
      cases x with
      | error e => exact runsAs_silent (by rw [hx]; rfl) (by rw [hx])
      | ok rows =>
        obtain ⟨numbered, hnumbered⟩ := numberRows_eq_ok ino
          ((m.inodes.inode? path.parent).getD InodeTable.rootInode) 0 m.inodes (hnames rows rfl)
        refine runsAs_silent ?_ (by rw [hx])
        rw [hx]
        dsimp only
        rw [hnumbered]
        rfl
  rw [readdir, readdirInto_eq]
  exact ⟨(failureOf_map _ _).trans hall.1, hall.2⟩

omit [RemoteDevice σ] in
theorem forgetAll_base (counts : List (Nat × Nat)) (m : Mount σ) :
    (counts.foldl (fun m f ↦ m.forget f.1 f.2) m).base = m.base := by
  rw [forgetAll_eq]

theorem answer_steps (m : Mount σ) (caller : Caller) (c : Callback) :
    m.RunsAs (m.answer caller c) (m.steps caller c) := by
  cases c with
  | lookup parent name => exact (runsAs_lookup parent name).reply
  | getattr ino => exact (runsAs_getattr m caller ino).reply
  | setattr ino changes => exact (runsAs_setattr ino changes).reply
  | mkdir parent name => exact (runsAs_mkdir parent name).reply
  | create parent name flags => exact (runsAs_create parent name flags).reply
  | unlink parent name => exact runsAs_remove.reply
  | rmdir parent name => exact runsAs_remove.reply
  | rename parent name newParent newName flags =>
    exact (runsAs_rename parent name newParent newName flags).reply
  | read ino max offset => exact (runsAs_read ino max offset).reply
  | write ino data offset => exact (runsAs_write ino data offset).reply
  | readdir ino offset room => exact (runsAs_readdir ino offset room).reply
  | openFile ino flags => exact ⟨failureOf_map _ _, rfl⟩
  | opendir ino => exact runsAs_done _
  | forgetAll counts => exact ⟨rfl, forgetAll_base counts m⟩
  | forget ino n => exact ⟨rfl, rfl⟩
  | release ino | releasedir ino | flush ino | fsync ino | statfs ino => exact ⟨rfl, rfl⟩
  | getxattr ino name | setxattr ino name | listxattr ino | removexattr ino name => exact ⟨rfl, rfl⟩
  | destroy => exact ⟨rfl, rfl⟩

def watched (m : Mount σ) : Mount (Watched σ) := ⟨m.base.watched, m.inodes, m.config⟩

def attempts (m : Mount σ) (caller : Caller) (c : Callback) : List Attempt :=
  (m.watched.answer caller c).2.base.device.log

omit [RemoteDevice σ] in
/-- The steps of a callback depend on the numbers of files and on the configuration only. -/
theorem steps_rebase {τ : Type} (m : Mount σ) (b : CachedDevice τ) (caller : Caller)
    (c : Callback) :
    (⟨b, m.inodes, m.config⟩ : Mount τ).steps caller c = m.steps caller c := by
  cases c <;> rfl

theorem attempts_eq (m : Mount σ) (caller : Caller) (c : Callback) :
    m.attempts caller c = (m.steps caller c).attempts m.base := by
  rw [attempts, (m.watched.answer_steps caller c).2, watched, steps_rebase]
  rfl

end Mount

end RemoteMount
