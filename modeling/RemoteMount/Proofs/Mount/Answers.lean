import RemoteMount.Mount.Callback
import RemoteMount.Proofs.CachedKinds
import RemoteMount.Proofs.InodeTables

namespace RemoteMount

open Program

namespace Mount

variable {σ : Type}

/-- The attributes of a child of which the kernel is given one more lookup. -/
def Reply.child? : Reply → Option FileAttributes
  | .entry a | .created a => some a
  | _ => none

def given? (m : Mount σ) : Callback → Option RemotePath
  | .lookup parent name | .mkdir parent name | .create parent name _ =>
    (m.childOf parent name).toOption
  | _ => none

def removal? (m : Mount σ) : Callback → Option (RemotePath × Program (Except CallError Unit))
  | .unlink parent name =>
    (m.childOf parent name).toOption.map fun path ↦ (path, Filesystem.unlink path)
  | .rmdir parent name =>
    (m.childOf parent name).toOption.map fun path ↦ (path, Filesystem.rmdir path)
  | _ => none

def move? (m : Mount σ) : Callback → Option (RemotePath × RemotePath)
  | .rename parent name newParent newName _ => do
    let old ← (m.childOf parent name).toOption
    let new ← (m.childOf newParent newName).toOption
    return (old, new)
  | _ => none

def Callback.forgets : Callback → List (Nat × Nat)
  | .forget ino n => [(ino, n)]
  | .forgetAll counts => counts
  | _ => []

/-- The callback gives nothing back, removes nothing and moves nothing. -/
structure Plain (m : Mount σ) (c : Callback) : Prop where
  forgets : c.forgets = []
  removal : m.removal? c = none
  move : m.move? c = none

/-- A table in which further paths may have got numbers. -/
inductive Peeked : InodeTable → InodeTable → Prop
  | refl (t : InodeTable) : Peeked t t
  | peek {t t' : InodeTable} (p : RemotePath) (h : Peeked (t.peek p).2 t') : Peeked t t'

theorem toOption_childOf_iff {m : Mount σ} {parent : Nat} {name : FileName} {path : RemotePath} :
    (m.childOf parent name).toOption = some path ↔ m.childOf parent name = .ok path := by
  cases m.childOf parent name <;> simp [Except.toOption]

theorem join_of_childOf {m : Mount σ} {parent : Nat} {name : FileName} {path : RemotePath}
    (h : m.childOf parent name = .ok path) :
    ∃ dir s, name = .text s ∧ m.pathOf parent = .ok dir ∧ dir.join s = .ok path := by
  cases name with
  | notText bytes => cases h
  | text s =>
    obtain ⟨dir, hdir, hj⟩ := exists_of_bind_eq_ok h
    cases hjoin : dir.join s with
    | error e =>
      rw [hjoin] at hj
      cases hj
    | ok q =>
      rw [hjoin] at hj
      obtain rfl : q = path := Except.ok.inj hj
      exact ⟨dir, s, rfl, hdir, hjoin⟩

theorem given?_ne_root {m : Mount σ} {c : Callback} {path : RemotePath}
    (h : m.given? c = some path) : path ≠ .root := by
  have hchild : ∀ parent name, (m.childOf parent name).toOption = some path → path ≠ .root := by
    intro parent name hx he
    obtain ⟨dir, s, -, -, hj⟩ := join_of_childOf (toOption_childOf_iff.1 hx)
    have hname := (RemotePath.join_eq_ok_iff.1 hj).2
    rw [he, RemotePath.name?_root] at hname
    cases hname
  cases c with
  | lookup parent name => exact hchild parent name h
  | mkdir parent name => exact hchild parent name h
  | create parent name flags => exact hchild parent name h
  | _ => cases h

theorem forgetAll_eq (counts : List (Nat × Nat)) (m : Mount σ) :
    counts.foldl (fun m f ↦ m.forget f.1 f.2) m =
    ⟨m.base, counts.foldl (fun t f ↦ (t.forget f.1 f.2).2) m.inodes, m.config⟩ := by
  induction counts generalizing m with
  | nil => rfl
  | cons f counts ih => exact ih (m.forget f.1 f.2)

variable [RemoteDevice σ]

/-- What is reached from a device and its cache by calls that leave every node in its place. -/
inductive Reaches (policy : Policy) (caller : Caller) : CachedDevice σ → CachedDevice σ → Prop
  | refl (b : CachedDevice σ) : Reaches policy caller b b
  | call {b b' : CachedDevice σ} (h : Reaches policy caller b b') (call : Call RemotePath)
    (hc : call.calm = true) :
    Reaches policy caller b ((call.program policy caller).run b').2

/-- All ways in which a callback can be answered. -/
inductive Answered (m : Mount σ) (caller : Caller) :
    Callback → Except CallError Reply → Mount σ → Prop
  | calm {c : Callback} {x : Except CallError Reply} {b : CachedDevice σ} {t : InodeTable}
      (hb : Reaches m.config.policy caller m.base b) (ht : Peeked m.inodes t) (hf : c.forgets = [])
      (hx : ∀ r, x = .ok r → r.child? = none ∧ m.removal? c = none ∧ m.move? c = none)
      (he : ∀ e, x = .error e → t = m.inodes) :
    Answered m caller c x ⟨b, t, m.config⟩
  | entered {c : Callback} {r : Reply} {b : CachedDevice σ} {path : RemotePath} {a : Attributes}
      (hb : Reaches m.config.policy caller m.base b) (hp : m.given? c = some path)
      (ha : ((Filesystem.getattr m.config.policy caller path).run b).1 = .ok a)
      (hr : r.child? = some (.ofAttributes (m.inodes.lookup path).1 a)) (hf : c.forgets = [])
      (hn : m.removal? c = none ∧ m.move? c = none) :
    Answered m caller c (.ok r)
      ⟨((Filesystem.getattr m.config.policy caller path).run b).2,
        (m.inodes.lookup path).2, m.config⟩
  | forgot {c : Callback} (hx : m.removal? c = none ∧ m.move? c = none) :
    Answered m caller c (.ok .nothing)
      ⟨m.base, c.forgets.foldl (fun t f ↦ (t.forget f.1 f.2).2) m.inodes, m.config⟩
  | removed {c : Callback} {x : Except CallError Unit} {b : CachedDevice σ} {path : RemotePath}
      {removal : Program (Except CallError Unit)} (hc : m.removal? c = some (path, removal))
      (hx : removal.run m.base = (x, b)) (hf : c.forgets = []) (hn : m.move? c = none) :
    Answered m caller c (x.map fun _ ↦ .nothing)
      ⟨b, if x.isOk then m.inodes.invalidate path else m.inodes, m.config⟩
  | moved {c : Callback} {x : Except CallError Unit} {b : CachedDevice σ} {old new : RemotePath}
      (hc : m.move? c = some (old, new)) (hx : (Filesystem.rename old new).run m.base = (x, b))
        (hf : c.forgets = [])
      (hn : m.removal? c = none) :
    Answered m caller c (x.map fun _ ↦ .nothing)
      ⟨b, if x.isOk then m.inodes.rename old new else m.inodes, m.config⟩

variable {m : Mount σ} {caller : Caller} {policy : Policy} {b : CachedDevice σ} {path : RemotePath}

theorem Reaches.map {α : Type} {f : Except CallError α → Except CallError CallAnswer}
    {p : Program (Except CallError α)}
    {b' : CachedDevice σ} (h : Reaches policy caller b b') (call : Call RemotePath)
    (hc : call.calm = true)
    (hp : call.program policy caller = f <$> p) : Reaches policy caller b (p.run b').2 := by
  have hrun := h.call call hc
  rw [hp, run_map] at hrun
  exact hrun

theorem call_eq {α : Type} (m : Mount σ) (p : Program (Except CallError α)) :
    m.call p = ((p.run m.base).1, { m with base := (p.run m.base).2 }) := rfl

def Calls (m : Mount σ) (caller : Caller) {α : Type} (x : Except CallError α × Mount σ) : Prop :=
  ∃ b, Reaches m.config.policy caller m.base b ∧ x.2 = { m with base := b }

theorem getattr_calls (m : Mount σ) (caller : Caller) (ino : Nat) :
    m.Calls caller (m.getattr caller ino) := by
  unfold getattr
  split
  · exact ⟨m.base, .refl _, rfl⟩
  · rename_i path _
    have hreaches : Reaches m.config.policy caller m.base
        ((Filesystem.getattr m.config.policy caller path).run m.base).2 :=
      (Reaches.refl _).map (.getattr path) rfl rfl
    rw [call_eq]
    generalize (Filesystem.getattr m.config.policy caller path).run m.base = x at hreaches ⊢
    obtain ⟨x, b⟩ := x
    cases x <;> exact ⟨b, hreaches, rfl⟩

theorem Reaches.trans {b' b'' : CachedDevice σ} (h : Reaches policy caller b b')
    (h' : Reaches policy caller b' b'') :
    Reaches policy caller b b'' := by
  induction h' with
  | refl => exact h
  | call _ call hc ih => exact ih.call call hc

theorem setattr_calls (ino : Nat) (changes : Changes) :
    m.Calls caller (m.setattr caller ino changes) := by
  unfold setattr
  split
  · exact ⟨m.base, .refl _, rfl⟩
  · split
    · exact ⟨m.base, .refl _, rfl⟩
    · split
      · exact getattr_calls m caller ino
      · rename_i path _ _ _ size _
        have hreaches : Reaches m.config.policy caller m.base
            ((Filesystem.truncate path size).run m.base).2 :=
          (Reaches.refl _).map (.truncate path size) rfl rfl
        rw [call_eq]
        generalize (Filesystem.truncate path size).run m.base = x at hreaches ⊢
        obtain ⟨x, b⟩ := x
        cases x with
        | error e => exact ⟨b, hreaches, rfl⟩
        | ok u =>
          obtain ⟨b', hb', he⟩ := getattr_calls { m with base := b } caller ino
          exact ⟨b', hreaches.trans hb', he⟩

theorem read_calls (ino max : Nat) (offset : Int) : m.Calls caller (m.read ino max offset) := by
  unfold read
  split
  · exact ⟨m.base, .refl _, rfl⟩
  · rename_i path offset _
    exact ⟨_, (Reaches.refl _).map (.read path max offset) rfl rfl, rfl⟩

theorem write_calls (ino : Nat) (data : Bytes) (offset : Int) :
    m.Calls caller (m.write ino data offset) := by
  unfold write
  split
  · exact ⟨m.base, .refl _, rfl⟩
  · rename_i path offset _
    have hreaches : Reaches m.config.policy caller m.base
        ((Filesystem.write path data offset).run m.base).2 :=
      (Reaches.refl _).map (.write path data offset) rfl rfl
    rw [call_eq]
    generalize (Filesystem.write path data offset).run m.base = x at hreaches ⊢
    obtain ⟨x, b⟩ := x
    cases x with
    | error e => exact ⟨b, hreaches, rfl⟩
    | ok n =>
      dsimp only
      split <;> exact ⟨b, hreaches, rfl⟩

theorem peeked_numberRows (ino parentIno index : Nat) (t : InodeTable)
    (rows : List Filesystem.DirectoryRow) :
    Peeked t (numberRows path ino parentIno index t rows).2 := by
  induction rows generalizing t index with
  | nil => exact .refl t
  | cons row rows ih =>
    have hrow : ∀ n t', rowInode t path ino parentIno row.name = .ok (n, t') →
        t' = t ∨ ∃ p, t' = (t.peek p).2 := by
      intro n t' h
      unfold rowInode at h
      split at h
      · cases h
        exact .inl rfl
      · split at h
        · cases h
          exact .inl rfl
        · split at h
          · rename_i p _
            have hpeek : t.peek p = (n, t') := Except.ok.inj h
            exact .inr ⟨p, by rw [hpeek]⟩
          · cases h
    unfold numberRows
    split
    · exact .refl t
    · rename_i n t' h
      have hrest : Peeked t (numberRows path ino parentIno (index + 1) t' rows).2 := by
        rcases hrow n t' h with rfl | ⟨p, rfl⟩
        · exact ih _ _
        · exact .peek p (ih _ _)
      generalize numberRows path ino parentIno (index + 1) t' rows = x at hrest ⊢
      obtain ⟨x, t''⟩ := x
      cases x <;> exact hrest

theorem names_of_readdir {rows : List Filesystem.DirectoryRow}
    (h : ((Filesystem.readdir policy caller path).run b).1 = .ok rows) :
    ∀ row ∈ rows, row.name = "." ∨ row.name = ".." ∨ ∃ p, path.join row.name = .ok p := by
  unfold Filesystem.readdir at h
  simp only [Program.run, interpret_bind] at h
  cases hrefresh : ((Filesystem.refresh policy caller path).run b).1 with
  | error e =>
    rw [Program.run] at hrefresh
    rw [hrefresh] at h
    cases h
  | ok records =>
    obtain ⟨listed, hrecords⟩ := Filesystem.exists_rows_of_refresh hrefresh
    rw [Program.run] at hrefresh
    rw [hrefresh] at h
    cases h
    intro row hrow
    rcases List.mem_cons.1 hrow with rfl | hrow
    · exact .inl rfl
    rcases List.mem_cons.1 hrow with rfl | hrow
    · exact .inr (.inl rfl)
    obtain ⟨⟨name, a⟩, hr, rfl⟩ := List.mem_map.1 hrow
    rw [hrecords] at hr
    obtain ⟨_, _, p, hp, rfl, -⟩ := Filesystem.mem_recordsOf.1 hr
    exact .inr (.inr ⟨p, hp⟩)

theorem numberRows_eq_ok {rows : List Filesystem.DirectoryRow} (ino parentIno index : Nat)
    (t : InodeTable)
    (h : ∀ row ∈ rows, row.name = "." ∨ row.name = ".." ∨ ∃ p, path.join row.name = .ok p) :
    ∃ numbered, (numberRows path ino parentIno index t rows).1 = .ok numbered := by
  induction rows generalizing t index with
  | nil => exact ⟨[], rfl⟩
  | cons row rows ih =>
    have hrow : ∃ x, rowInode t path ino parentIno row.name = .ok x := by
      unfold rowInode
      split
      · exact ⟨_, rfl⟩
      · split
        · exact ⟨_, rfl⟩
        · rename_i hself hparent
          obtain ⟨p, hp⟩ :=
            ((h row (List.mem_cons_self ..)).resolve_left hself).resolve_left hparent
          rw [hp]
          exact ⟨_, rfl⟩
    obtain ⟨⟨n, t'⟩, hx⟩ := hrow
    obtain ⟨numbered, hrest⟩ := ih (index + 1) t' fun row hr ↦ h row (List.mem_cons_of_mem _ hr)
    unfold numberRows
    rw [hx]
    dsimp only
    generalize numberRows path ino parentIno (index + 1) t' rows = y at hrest ⊢
    obtain ⟨y, t''⟩ := y
    obtain rfl : y = .ok numbered := hrest
    exact ⟨_, rfl⟩

/-- A page is cut out of all rows of the directory, and nothing else is done to the mount. -/
theorem readdirInto_eq (buffer : RowBuffer) (m : Mount σ) (caller : Caller) (ino : Nat)
    (offset : Int) :
    readdirInto buffer m caller ino offset =
      ((m.allRows caller ino).1.map fun rows ↦ buffer.taken (rows.drop offset.toNat),
        (m.allRows caller ino).2) := by
  unfold readdirInto
  generalize m.allRows caller ino = x
  obtain ⟨x, m'⟩ := x
  cases x <;> rfl

theorem readdir_calls (m : Mount σ) (caller : Caller) (ino : Nat) (offset : Int) (room : Nat) :
    ∃ b t, Reaches m.config.policy caller m.base b ∧ Peeked m.inodes t ∧
      (m.readdir caller ino offset room).2 = ⟨b, t, m.config⟩ ∧
      ∀ e, (m.readdir caller ino offset room).1 = .error e → t = m.inodes := by
  have hall : ∃ b t, Reaches m.config.policy caller m.base b ∧ Peeked m.inodes t ∧
      (m.allRows caller ino).2 = ⟨b, t, m.config⟩ ∧ ∀ e, (m.allRows caller ino).1 = .error e →
        t = m.inodes := by
    unfold allRows
    split
    · exact ⟨m.base, m.inodes, .refl _, .refl _, rfl, fun _ _ ↦ rfl⟩
    · rename_i path _
      have hreaches : Reaches m.config.policy caller m.base
          ((Filesystem.readdir m.config.policy caller path).run m.base).2 :=
        (Reaches.refl _).map (.readdir path) rfl rfl
      have hnames : ∀ rows, ((Filesystem.readdir m.config.policy caller path).run m.base).1 =
          .ok rows →
          ∀ row ∈ rows, row.name = "." ∨ row.name = ".." ∨ ∃ p, path.join row.name = .ok p :=
        fun _ h ↦ names_of_readdir h
      rw [call_eq]
      generalize (Filesystem.readdir m.config.policy caller path).run m.base =
        x at hreaches hnames ⊢
      obtain ⟨x, b⟩ := x
      cases x with
      | error e => exact ⟨b, m.inodes, hreaches, .refl _, rfl, fun _ _ ↦ rfl⟩
      | ok rows =>
        refine ⟨b, _, hreaches, peeked_numberRows _ _ _ _ _, rfl, fun e he ↦ ?_⟩
        obtain ⟨numbered, hnumbered⟩ := numberRows_eq_ok ino _ 0 m.inodes (hnames rows rfl)
        cases hnumbered.symm.trans he
  obtain ⟨b, t, hb, ht, hm, he⟩ := hall
  rw [readdir, readdirInto_eq]
  refine ⟨b, t, hb, ht, hm, fun e hx ↦ ?_⟩
  cases hrows : (m.allRows caller ino).1 with
  | error e' => exact he e' hrows
  | ok rows =>
    rw [hrows] at hx
    cases hx

theorem entryFor_cases (m : Mount σ) (caller : Caller) (path : RemotePath) :
    (∃ e b, Reaches m.config.policy caller m.base b ∧
      m.entryFor caller path = (.error e, { m with base := b })) ∨
    ∃ a, ((Filesystem.getattr m.config.policy caller path).run m.base).1 = .ok a ∧
      m.entryFor caller path = (.ok (.ofAttributes (m.inodes.lookup path).1 a),
        ⟨((Filesystem.getattr m.config.policy caller path).run m.base).2, (m.inodes.lookup path).2,
          m.config⟩) := by
  have hreaches : Reaches m.config.policy caller m.base
      ((Filesystem.getattr m.config.policy caller path).run m.base).2 :=
    (Reaches.refl _).map (.getattr path) rfl rfl
  unfold entryFor
  rw [call_eq]
  generalize (Filesystem.getattr m.config.policy caller path).run m.base = x at hreaches ⊢
  obtain ⟨x, b⟩ := x
  cases x with
  | error e => exact .inl ⟨e, b, hreaches, rfl⟩
  | ok a => exact .inr ⟨a, rfl, rfl⟩

variable {c : Callback}

theorem Calls.answered {α : Type} {x : Except CallError α × Mount σ} {f : α → Reply}
    (h : m.Calls caller x) (hf : ∀ a, (f a).child? = none) (hc : m.Plain c) :
    Answered m caller c (reply x f).1 (reply x f).2 := by
  obtain ⟨b, hb, he⟩ := h
  obtain ⟨x, m'⟩ := x
  obtain rfl : m' = { m with base := b } := he
  refine .calm hb (.refl _) hc.forgets ?_ fun _ _ ↦ rfl
  rintro r hr
  cases x with
  | error e => cases hr
  | ok a =>
    cases hr
    exact ⟨hf a, hc.removal, hc.move⟩

theorem answered_refused (e : CallError) (hf : c.forgets = []) : Answered m caller c (.error e) m :=
  .calm (.refl _) (.refl _) hf (fun _ hr ↦ nomatch hr) fun _ _ ↦ rfl

theorem answered_entryFor {f : FileAttributes → Reply} (hf : ∀ a, (f a).child? = some a)
    (hb : Reaches m.config.policy caller m.base b) (hp : m.given? c = some path)
    (hc : m.Plain c) :
    Answered m caller c (reply (entryFor { m with base := b } caller path) f).1
      (reply (entryFor { m with base := b } caller path) f).2 := by
  rcases entryFor_cases { m with base := b } caller path with ⟨e, b', hb', he⟩ | ⟨a, ha, he⟩
  · rw [he]
    exact .calm (hb.trans hb') (.refl _) hc.forgets (fun _ hr ↦ nomatch hr) fun _ _ ↦ rfl
  · rw [he]
    exact .entered hb hp ha (hf _) hc.forgets ⟨hc.removal, hc.move⟩

theorem lookup_answered (parent : Nat) (name : FileName) : Answered m caller (.lookup parent name)
    (reply (m.lookup caller parent name) .entry).1
      (reply (m.lookup caller parent name) .entry).2 := by
  unfold lookup
  split
  · exact answered_refused _ rfl
  · rename_i path hp
    exact answered_entryFor (fun _ ↦ rfl) (.refl _) (toOption_childOf_iff.2 hp) ⟨rfl, rfl, rfl⟩

theorem mkdir_answered (parent : Nat) (name : FileName) : Answered m caller (.mkdir parent name)
    (reply (m.mkdir caller parent name) .entry).1
      (reply (m.mkdir caller parent name) .entry).2 := by
  unfold mkdir
  split
  · exact answered_refused _ rfl
  · rename_i path hp
    have hreaches : Reaches m.config.policy caller m.base ((Filesystem.mkdir path).run m.base).2 :=
      (Reaches.refl _).map (.mkdir path) rfl rfl
    rw [call_eq]
    generalize (Filesystem.mkdir path).run m.base = x at hreaches ⊢
    obtain ⟨x, b⟩ := x
    cases x with
    | error e => exact .calm hreaches (.refl _) rfl (fun _ hr ↦ nomatch hr) fun _ _ ↦ rfl
    | ok u =>
      exact answered_entryFor (fun _ ↦ rfl) hreaches (toOption_childOf_iff.2 hp) ⟨rfl, rfl, rfl⟩

theorem create_answered (parent : Nat) (name : FileName) (flags : UInt32) :
    Answered m caller (.create parent name flags)
      (reply (m.create caller parent name flags) .created).1
      (reply (m.create caller parent name flags) .created).2 := by
  unfold create
  split
  · exact answered_refused _ rfl
  · split
    · exact answered_refused _ rfl
    · rename_i path hp
      dsimp only
      have hreaches : Reaches m.config.policy caller m.base
          ((if OpenFlags.has flags OpenFlags.excl then
          Filesystem.createNew m.config.policy caller path
            else Filesystem.create path).run m.base).2 := by
        split
        · exact (Reaches.refl _).map (.createNew path) rfl rfl
        · exact (Reaches.refl _).map (.create path) rfl rfl
      rw [call_eq]
      generalize (if OpenFlags.has flags OpenFlags.excl then
        Filesystem.createNew m.config.policy caller path
        else Filesystem.create path).run m.base = x at hreaches ⊢
      obtain ⟨x, b⟩ := x
      cases x with
      | error e => exact .calm hreaches (.refl _) rfl (fun _ hr ↦ nomatch hr) fun _ _ ↦ rfl
      | ok u =>
        exact answered_entryFor (fun _ ↦ rfl) hreaches (toOption_childOf_iff.2 hp) ⟨rfl, rfl, rfl⟩

theorem remove_answered {parent : Nat} {name : FileName}
    {removal : RemotePath → Program (Except CallError Unit)}
    (hc : m.removal? c = (m.childOf parent name).toOption.map fun path ↦ (path, removal path))
    (hf : c.forgets = [])
    (hn : m.move? c = none) : Answered m caller c
      (reply (m.remove parent name removal) fun _ ↦ .nothing).1
      (reply (m.remove parent name removal) fun _ ↦ .nothing).2 := by
  unfold remove
  split
  · exact answered_refused _ hf
  · rename_i path hp
    rw [toOption_childOf_iff.2 hp] at hc
    rw [call_eq]
    cases hx : (removal path).run m.base with
    | mk x b => cases x <;> exact .removed hc hx hf hn

theorem rename_answered (parent : Nat) (name : FileName) (newParent : Nat) (newName : FileName)
    (flags : UInt32) :
    Answered m caller (.rename parent name newParent newName flags)
      (reply (m.rename parent name newParent newName flags) fun _ ↦ .nothing).1
      (reply (m.rename parent name newParent newName flags) fun _ ↦ .nothing).2 := by
  unfold rename
  split
  · exact answered_refused _ rfl
  · split
    · exact answered_refused _ rfl
    · rename_i old ho
      split
      · exact answered_refused _ rfl
      · rename_i new hn
        have hc : m.move? (.rename parent name newParent newName flags) = some (old, new) := by
          simp only [move?, ho, hn]
          rfl
        rw [call_eq]
        cases hx : (Filesystem.rename old new).run m.base with
        | mk x b => cases x <;> exact .moved hc hx rfl rfl

theorem quiet_answered {r : Reply} (hr : r.child? = none) (hc : m.Plain c) :
    Answered m caller c (.ok r) m := by
  refine .calm (.refl _) (.refl _) hc.forgets (fun r' hr' ↦ ?_) fun _ _ ↦ rfl
  cases hr'
  exact ⟨hr, hc.removal, hc.move⟩

theorem opened_answered {α : Type} (x : Except CallError α) (hc : m.Plain c) :
    Answered m caller c (x.map fun _ ↦ .opened) m := by
  cases x with
  | error e => exact answered_refused e hc.forgets
  | ok a => exact quiet_answered rfl hc

theorem readdir_answered (ino : Nat) (offset : Int) (room : Nat) :
    Answered m caller (.readdir ino offset room)
    (reply (m.readdir caller ino offset room) .rows).1
      (reply (m.readdir caller ino offset room) .rows).2 := by
  obtain ⟨b, t, hb, ht, hm, he⟩ := readdir_calls m caller ino offset room
  generalize m.readdir caller ino offset room = x at hm he ⊢
  obtain ⟨x, m'⟩ := x
  obtain rfl : m' = ⟨b, t, m.config⟩ := hm
  cases x with
  | error e => exact .calm hb ht rfl (fun _ hr ↦ nomatch hr) fun _ _ ↦ he e rfl
  | ok rows =>
    refine .calm hb ht rfl (fun r hr ↦ ?_) fun _ hr ↦ nomatch hr
    cases hr
    exact ⟨rfl, rfl, rfl⟩

theorem answered (m : Mount σ) (caller : Caller) (c : Callback) :
    Answered m caller c (m.answer caller c).1 (m.answer caller c).2 := by
  cases c with
  | lookup parent name => exact lookup_answered parent name
  | mkdir parent name => exact mkdir_answered parent name
  | create parent name flags => exact create_answered parent name flags
  | unlink parent name => exact remove_answered rfl rfl rfl
  | rmdir parent name => exact remove_answered rfl rfl rfl
  | rename parent name newParent newName flags =>
    exact rename_answered parent name newParent newName flags
  | forget ino n => exact .forgot ⟨rfl, rfl⟩
  | forgetAll counts =>
    rw [show (m.answer caller (.forgetAll counts)).2 = _ from forgetAll_eq counts m]
    exact .forgot ⟨rfl, rfl⟩
  | getattr ino => exact (getattr_calls m caller ino).answered (fun _ ↦ rfl) ⟨rfl, rfl, rfl⟩
  | setattr ino changes => exact (setattr_calls ino changes).answered (fun _ ↦ rfl) ⟨rfl, rfl, rfl⟩
  | read ino max offset => exact (read_calls ino max offset).answered (fun _ ↦ rfl) ⟨rfl, rfl, rfl⟩
  | write ino data offset =>
    exact (write_calls ino data offset).answered (fun _ ↦ rfl) ⟨rfl, rfl, rfl⟩
  | readdir ino offset room => exact readdir_answered ino offset room
  | openFile ino flags => exact opened_answered (m.openFile ino flags) ⟨rfl, rfl, rfl⟩
  | opendir ino => exact opened_answered (m.pathOf ino) ⟨rfl, rfl, rfl⟩
  | release ino | releasedir ino | flush ino | fsync ino | statfs ino =>
    exact quiet_answered rfl ⟨rfl, rfl, rfl⟩
  | getxattr ino name | setxattr ino name | listxattr ino | removexattr ino name =>
    exact answered_refused _ rfl
  | destroy =>
    have hreaches : Reaches m.config.policy caller m.base (Filesystem.destroy.run m.base).2 :=
      (Reaches.refl m.base).call .destroy rfl
    refine .calm hreaches (.refl _) rfl (fun r hr ↦ ?_) fun _ _ ↦ rfl
    cases hr
    exact ⟨rfl, rfl, rfl⟩

end Mount

end RemoteMount
