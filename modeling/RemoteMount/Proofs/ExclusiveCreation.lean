import RemoteMount.Proofs.CacheBlindness
import RemoteMount.Proofs.FileContents
import RemoteMount.Proofs.Host.Entries
import RemoteMount.Proofs.ListingCalls

namespace RemoteMount

open Program

namespace Filesystem

variable {σ : Type} [RemoteDevice σ] {policy : Policy} {caller : Caller} {path : RemotePath}
    {rows : List ListingEntry}

theorem device_invalidateAll (touched : List RemotePath) (m : CachedDevice σ) :
    ((invalidateAll touched).run m).2.device = m.device := by
  induction touched generalizing m with
  | nil => rfl
  | cons dir touched ih => exact ih _

theorem run_mutate {mutation : Program (Except RemoteError Unit)} (h : mutation.Blind)
    (touched : List RemotePath)
    (m : CachedDevice σ) : ((mutate touched mutation).run m).1 = (mutation.run m).1 ∧
      ((mutate touched mutation).run m).2.device = (mutation.run m).2.device := by
  have hbefore : ((invalidateAll touched).run m).2 =
      ⟨m.device, ((invalidateAll touched).run m).2.cache⟩ := by
    rw [← device_invalidateAll touched m]
  have hrun := h.run m.device ((invalidateAll touched).run m).2.cache m.cache
  rw [mutate, run_bind, run_bind, run_bind, hbefore]
  exact ⟨hrun.1, (device_invalidateAll touched _).trans hrun.2⟩

/-- What comes of opening a file to make or cut it, and closing it again. -/
inductive Created (path : RemotePath) (d : σ) : Except CallError Unit → σ → Prop
  | refused {e : RemoteError} (ho : (RemoteDevice.answer (.openFile path .createWrite) d).1 =
        .error e) :
    Created path d (.error (.remote e)) (RemoteDevice.answer (.openFile path .createWrite) d).2
  | opened {id : SessionId} {d' : σ}
    (hd : (RemoteDevice.answer (.openFile path .createWrite) d).2 = d')
    (ho : (RemoteDevice.answer (.openFile path .createWrite) d).1 = .ok id)
      {x : Except RemoteError Unit}
    (hx : (RemoteDevice.answer (.close id) d').1 = x) :
    Created path d (x.mapError .remote) (RemoteDevice.answer (.close id) d').2

theorem run_request (r : Request) (m : CachedDevice σ) : (request r).run m =
    ((RemoteDevice.answer r m.device).1, ⟨(RemoteDevice.answer r m.device).2, m.cache⟩) := rfl

theorem created_withSession (path : RemotePath) (m : CachedDevice σ) :
    Created path m.device
      (((withSession path .createWrite fun _ ↦ return .ok ()).run m).1.mapError .remote)
      ((withSession path .createWrite fun _ ↦ return .ok ()).run m).2.device := by
  rw [withSession, run_bind, run_request]
  dsimp only
  cases ho : (RemoteDevice.answer (.openFile path .createWrite) m.device).1 with
  | error e => exact .refused ho
  | ok id =>
    dsimp only
    rw [pure_bind, run_bind, run_request]
    dsimp only
    cases hx : (RemoteDevice.answer (.close id)
      (RemoteDevice.answer (.openFile path .createWrite) m.device).2).1 with
    | error e => exact .opened rfl ho hx
    | ok u => exact .opened rfl ho hx

theorem created_run (path : RemotePath) (m : CachedDevice σ) :
    Created path m.device ((create path).run m).1 ((create path).run m).2.device := by
  have hblind : (withSession path .createWrite fun _ ↦ return .ok ()).Blind :=
    blind_withSession fun _ ↦ .done _
  obtain ⟨hx, hd⟩ := run_mutate hblind [path.parent] m
  have hcreated := created_withSession path m
  rw [← hx, ← hd] at hcreated
  rw [create, remotely, run_bind]
  exact hcreated

/-- What comes of making a file after its directory was listed. -/
inductive CreatedNew (path : RemotePath) (d : σ) : Except CallError Unit → σ → Prop
  | unlisted {e : RemoteError} (hl : (RemoteDevice.answer (.listdir path.parent) d).1 = .error e) :
    CreatedNew path d (.error (.remote e)) (RemoteDevice.answer (.listdir path.parent) d).2
  | taken {rows : List ListingEntry} {row : ListingEntry}
    (hl : (RemoteDevice.answer (.listdir path.parent) d).1 = .ok rows) (hr : row ∈ rows)
    (hn : path.name? = some row.name) :
    CreatedNew path d (.error (.alreadyExists path.text))
      (RemoteDevice.answer (.listdir path.parent) d).2
  | free {rows : List ListingEntry} {x : Except CallError Unit} {d' : σ}
    (hl : (RemoteDevice.answer (.listdir path.parent) d).1 = .ok rows) (hf : ∀ row ∈ rows,
      path.name? ≠ some row.name)
    (h : Created path (RemoteDevice.answer (.listdir path.parent) d).2 x d') :
      CreatedNew path d x d'

theorem any_recordsOf_iff :
    (recordsOf policy caller path.parent rows).any (·.1 = path.name?.getD "") = true ↔
    ∃ row ∈ rows, path.name? = some row.name := by
  simp only [List.any_eq_true, decide_eq_true_iff, Prod.exists]
  constructor
  · rintro ⟨_, a, ha, rfl⟩
    obtain ⟨row, hr, p, hj, hname, -⟩ := mem_recordsOf.1 ha
    refine ⟨row, hr, ?_⟩
    rcases path.eq_root_or_child with rfl | ⟨s, hs⟩
    · obtain ⟨s, -, hs⟩ := Option.map_eq_some_iff.1 (RemotePath.join_eq_ok_iff.1 hj).2
      exact absurd (hs.trans hname.symm) s.valid.1
    · rw [hs, RemotePath.name?_child] at hname ⊢
      exact congrArg some hname
  · rintro ⟨row, hr, hn⟩
    refine ⟨row.name, .ofEntry path row policy caller,
      mem_recordsOf.2 ⟨row, hr, path, ?_, rfl, rfl⟩, ?_⟩
    · exact RemotePath.join_eq_ok_iff.2 ⟨rfl, hn⟩
    · rw [hn]
      rfl

theorem createdNew_run (policy : Policy) (caller : Caller) (path : RemotePath)
    (m : CachedDevice σ) :
    CreatedNew path m.device ((createNew policy caller path).run m).1
      ((createNew policy caller path).run m).2.device := by
  rw [createNew, run_bind]
  cases hl : (RemoteDevice.answer (.listdir path.parent) m.device).1 with
  | error e =>
    rw [run_refresh_of_error hl]
    exact .unlisted hl
  | ok rows =>
    rw [run_refresh_of_ok hl]
    dsimp only
    split
    · rename_i ht
      obtain ⟨row, hr, hn⟩ := any_recordsOf_iff.1 ht
      exact .taken hl hr hn
    · rename_i hf
      exact .free hl (fun row hr hn ↦ hf (any_recordsOf_iff.2 ⟨row, hr, hn⟩))
        (created_run path ⟨_, _⟩)

/-- Where something is, the call fails and all files keep their bytes. If it succeeds then
nothing was there, an empty file is now, and no other file has changed. -/
structure Exclusive {κ : Type} [DecidableEq κ] (x : Except CallError Unit) (taken : Prop)
    (isAt : κ → Prop) (before after : κ → Option Bytes) : Prop where
  refused : taken → (∃ e, x = .error e) ∧ after = before
  fresh : x = .ok () → ¬taken ∧ ∃ k, isAt k ∧ before k = none ∧
    after = Function.update before k (some [])

theorem Exclusive.of_error {κ : Type} [DecidableEq κ] {taken : Prop} {isAt : κ → Prop}
    {before after : κ → Option Bytes}
    {e : CallError} (h : after = before) : Exclusive (.error e) taken isAt before after :=
  ⟨fun _ ↦ ⟨⟨e, rfl⟩, h⟩, nofun⟩

theorem Exclusive.of_free {κ : Type} [DecidableEq κ] {x : Except CallError Unit} {taken : Prop}
    {isAt : κ → Prop}
    {before after : κ → Option Bytes} {k : κ} (ht : ¬taken) (hk : isAt k) (hb : before k = none)
    (ha : after = Function.update before k (some [])) : Exclusive x taken isAt before after :=
  ⟨fun h ↦ absurd h ht, fun _ ↦ ⟨ht, k, hk, hb, ha⟩⟩

end Filesystem

namespace Memory

open Filesystem

variable {t t' : Tree} {d d' : Device} {path : RemotePath} {rows : List ListingEntry}
    {x : Except CallError Unit}

namespace Tree

theorem get?_of_unlisted {position : UInt64} (hl : t.listing path.parent = .ok rows)
    (hf : ∀ row ∈ rows, path.name? ≠ some row.name)
    (ho : t.openFile path .createWrite = .ok (t', position)) :
    t.get? path = none := by
  rw [Option.eq_none_iff_forall_ne_some]
  intro node hnode
  by_cases hr : path = .root
  · subst hr
    rcases openFile_eq_ok ho with ⟨-, hne, -⟩ | ⟨hmode, -⟩
    · exact hne (listing_eq_ok_iff.1 hl).1
    · exact hmode rfl
  · obtain ⟨row, hrow, hj⟩ := exists_row_of_child hl hnode hr rfl
    exact hf row hrow (RemotePath.join_eq_ok_iff.1 hj).2

theorem files_of_openFile {position : UInt64}
    (ho : t.openFile path .createWrite = .ok (t', position)) :
    t'.files = Function.update t.files path (some []) := by
  rcases openFile_eq_ok ho with ⟨-, -, rfl⟩ | ⟨hmode, -⟩
  · exact files_insert t path (.file .empty)
  · exact absurd rfl hmode

end Tree

namespace Device

theorem exclusive_of_createdNew (h : CreatedNew path d x d') :
    Exclusive x (∃ node, d.tree.get? path = some node) (· = path) d.tree.files d'.tree.files := by
  have hquiet : (d.answer (.listdir path.parent)).2.tree = d.tree :=
    tree_answer_listdir d path.parent
  cases h with
  | unlisted hl => exact .of_error (congrArg Tree.files hquiet)
  | taken hl hr hn => exact .of_error (congrArg Tree.files hquiet)
  | free hl hf h =>
    cases h with
    | refused ho => exact .of_error (congrArg Tree.files ((tree_answer_of_error ho).trans hquiet))
    | @opened id d₁ hd ho x hx =>
      have hgranted : ((d.answer (.listdir path.parent)).2.tree.openFile path .createWrite).map
          Prod.fst =
          .ok d₁.tree := hd ▸ onTree_of_answer rfl ho
      rw [hquiet] at hgranted
      cases hopen : d.tree.openFile path .createWrite with
      | error e =>
        rw [hopen] at hgranted
        cases hgranted
      | ok opened =>
        obtain ⟨t, position⟩ := opened
        rw [hopen] at hgranted
        obtain rfl : t = d₁.tree := Except.ok.inj hgranted
        have hnone : d.tree.get? path = none :=
          Tree.get?_of_unlisted (listing_of_answer hl) hf hopen
        have hclose : (d₁.answer (.close id)).2.tree = d₁.tree :=
          (answer_effect d₁ (.close id)).eq_of_quiet (fun _ h ↦ h) rfl
        refine .of_free (by simp [hnone]) rfl (by rw [Tree.files, hnone, Option.bind_none]) ?_
        exact (congrArg Tree.files hclose).trans (Tree.files_of_openFile hopen)

end Device

end Memory

namespace Host.Device

open Filesystem FileStore

variable {d d' : Device} {store : FileStore} {dir path : RemotePath} {s : Segment}
    {rows : List ListingEntry}
variable {x : Except CallError Unit} {chain : List NodeId} {links : Nat}

/-- At the path is a link, and opening the path goes through it: to a file, which is cut, or to
where one can be made. -/
def OpensThroughLink (store : FileStore) (path : RemotePath) : Prop :=
  path ≠ .root ∧
    (∃ id target, store.lstat? (hostNames path) = some id ∧
      store.nodes.get? id = some (.symlink target)) ∧
    ∃ opened, openFile store path .createWrite = .ok opened

/-- A listing passes links over, so nothing stops the call from going through one. -/
theorem created_of_link (hw : d.store.WellFormed) (h : CreatedNew path d x d')
    (ho : OpensThroughLink d.store path) :
    x = .ok () := by
  obtain ⟨hr, ⟨id, target, hid, htarget⟩, opened, hopen⟩ := ho
  obtain ⟨s, hs⟩ := path.eq_root_or_child.resolve_left hr
  rw [hs] at hid
  obtain ⟨chain, links, henters⟩ := enters_of_lstat? hw.top hid
  have hentry := get?_of_child ((lstat?_eq_some_iff henters).1 hid)
  cases h with
  | @unlisted e hl =>
    have hlimit : path.parent.text.utf8ByteSize ≤ pathLimit :=
      (utf8ByteSize_text_child path.parent s).trans (hs ▸ (openFile_eq_ok hopen).1)
    cases (listing_of_enters hw.top henters hlimit).symm.trans hl
  | @taken rows row hl hrow hn =>
    rw [hs, RemotePath.name?_child] at hn
    obtain ⟨id', n, hentry', hn', hlink⟩ :=
      (listed_iff hw.top henters hl s.name).1 ⟨row, hrow, (Option.some_inj.1 hn).symm⟩
    cases hentry.symm.trans hentry'
    cases hn'.symm.trans htarget
    exact absurd rfl (hlink target)
  | free hl hf h =>
    cases h with
    | refused ho => cases hopen.symm.trans (answer_openFile_of_error ho).1
    | opened hd ho hx =>
      cases hx
      rfl

/-- What is no link is in the listing, so a name that is not listed, and at which no link is
followed, is free. -/
theorem child_of_unlisted (hw : d.store.WellFormed) {opened : NodeId × FileStore}
    (hl : listing d.store dir = .ok rows) (hf : ∀ row ∈ rows, s.name ≠ row.name)
    (henters : d.store.Enters (hostNames dir) chain links)
    (ho : openFile d.store (dir.child s) .createWrite = .ok opened)
    (hn : ¬OpensThroughLink d.store (dir.child s)) :
    d.store.child chain (Text.encode s.name) = .ok none := by
  cases hc : d.store.child chain (Text.encode s.name) with
  | error e => exact absurd ho (openFile_of_refused henters hc)
  | ok found =>
    cases found with
    | none => rfl
    | some id =>
      exfalso
      have hentry := get?_of_child hc
      obtain ⟨n, hnode⟩ := hw.exists_node hentry
      by_cases hlink : ∀ target, n ≠ .symlink target
      · obtain ⟨row, hrow, hname⟩ :=
          (listed_iff hw.top henters hl s.name).2 ⟨id, n, hentry, hnode, hlink⟩
        exact hf row hrow hname.symm
      · obtain ⟨target, htarget⟩ := not_forall_not.1 hlink
        refine hn ⟨fun he ↦ ?_, ⟨id, target, (lstat?_eq_some_iff henters).2 hc, htarget ▸ hnode⟩,
          opened, ho⟩
        have hname := RemotePath.name?_eq_none_iff.2 he
        rw [RemotePath.name?_child] at hname
        cases hname

theorem exclusive_iff_of_createdNew (hw : d.store.WellFormed) (h : CreatedNew path d x d') :
    Exclusive x (∃ id, d.store.lstat? (hostNames path) = some id)
        (fun id ↦ d'.store.lstat? (hostNames path) = some id) d.store.files d'.store.files ↔
      ¬OpensThroughLink d.store path := by
  constructor
  · intro hx ho
    obtain ⟨-, ⟨id, -, hid, -⟩, -⟩ := id ho
    obtain ⟨e, he⟩ := (hx.refused ⟨id, hid⟩).1
    cases (created_of_link hw h ho).symm.trans he
  · intro hn
    cases h with
    | unlisted hl => exact .of_error rfl
    | taken hl hr hn => exact .of_error rfl
    | @free rows _ _ hl hf h =>
      replace hl : listing d.store path.parent = .ok rows := hl
      cases h with
      | refused ho =>
        exact .of_error (congrArg (fun d : Device ↦ d.store.files) (answer_openFile_of_error ho).2)
      | @opened id d₁ hd ho x hx =>
        obtain ⟨node, hopen⟩ := openFile_of_answer ho
        replace hopen : openFile d.store path .createWrite = .ok (node, d₁.store) := hd ▸ hopen
        rcases path.eq_root_or_child with rfl | ⟨s, hs⟩
        · obtain ⟨dir, hstat, hdir⟩ := stat_of_listing hl
          exact absurd hdir ((openFile_eq_ok hopen).2.1 dir hstat)
        · rw [hs] at hn hopen ⊢
          obtain ⟨chain, links, henters⟩ := enters_of_openFile hw.top hopen
          have hfree : d.store.child chain (Text.encode s.name) = .ok none := by
            refine child_of_unlisted hw hl (fun row hrow hname ↦ hf row hrow ?_) henters hopen hn
            rw [hs, RemotePath.name?_child, hname]
          have hstore :
              d₁.store = (d.store.add (here chain) (Text.encode s.name) (.file .empty)).2 :=
            congrArg Prod.snd (openFile_of_free henters hfree hopen)
          refine @Exclusive.of_free _ _ _ _ _ _ _ d.store.next ?_ ?_ ?_ ?_
          · rintro ⟨id, hid⟩
            cases hfree.symm.trans ((lstat?_eq_some_iff henters).1 hid)
          · change d₁.store.lstat? _ = _
            rw [hstore, lstat?_add hw henters hfree]
          · rw [files, hw.get?_next]
          · exact (congrArg files hstore).trans (files_add hw (henters.climbs.here hw.top) .empty)

end Host.Device

namespace Filesystem

open Host Host.Device

/-- On a device in memory the call is exclusive. On a host it is unless it goes through a
link. -/
theorem createNew_exclusive_iff (policy : Policy) (caller : Caller) (path : RemotePath) :
    (∀ m : CachedDevice Memory.Device, Exclusive ((createNew policy caller path).run m).1
      (∃ node, m.device.tree.get? path = some node) (· = path) m.device.tree.files
      ((createNew policy caller path).run m).2.device.tree.files) ∧
    ∀ m : CachedDevice Host.Device, m.device.store.WellFormed →
      (Exclusive ((createNew policy caller path).run m).1
        (∃ id, m.device.store.lstat? (hostNames path) = some id)
        (fun id ↦ ((createNew policy caller path).run m).2.device.store.lstat? (hostNames path) =
          some id)
        m.device.store.files ((createNew policy caller path).run m).2.device.store.files ↔
      ¬OpensThroughLink m.device.store path) :=
  ⟨fun m ↦ Memory.Device.exclusive_of_createdNew (createdNew_run policy caller path m),
    fun m hw ↦ exclusive_iff_of_createdNew hw (createdNew_run policy caller path m)⟩

section Examples

def newcomer : Caller := ⟨1000, 100, 42⟩

def linkedStore : FileStore :=
  ((FileStore.empty.put (.directory [])).put (.file (Text.encode "t") [1, 2])).put
    (.symlink (Text.encode "l") (Text.encode "t"))

def linkedDirectory : CachedDevice Host.Device := ⟨⟨linkedStore, .empty, 0⟩, .empty⟩

def linkName : RemotePath := RemotePath.root.child ⟨"l", by decide⟩

def freeName : RemotePath := RemotePath.root.child ⟨"n", by decide⟩

theorem createNew_exclusive_iff_freeName :
    linkedStore.WellFormed ∧ ¬OpensThroughLink linkedStore freeName ∧
    Exclusive ((createNew .standard newcomer freeName).run linkedDirectory).1
      (∃ id, linkedStore.lstat? (hostNames freeName) = some id)
      (fun id ↦ ((createNew .standard newcomer freeName).run linkedDirectory).2.device.store.lstat?
        (hostNames freeName) = some id)
      linkedStore.files ((createNew .standard newcomer freeName).run
        linkedDirectory).2.device.store.files := by
  have hwell : linkedStore.WellFormed := by decide +kernel
  have hlink : ¬OpensThroughLink linkedStore freeName := by
    rintro ⟨-, ⟨id, target, hid, -⟩, -⟩
    have hnone : linkedStore.lstat? (hostNames freeName) = none := by decide +kernel
    cases hnone.symm.trans hid
  exact ⟨hwell, hlink,
    ((createNew_exclusive_iff .standard newcomer freeName).2 linkedDirectory hwell).2 hlink⟩

/-- Through the link the file is cut, and the call succeeds. -/
theorem createNew_cuts_target : ¬∀ m : CachedDevice Host.Device, m.device.store.WellFormed →
    Exclusive ((createNew .standard newcomer linkName).run m).1
      (∃ id, m.device.store.lstat? (hostNames linkName) = some id)
      (fun id ↦ ((createNew .standard newcomer linkName).run m).2.device.store.lstat?
        (hostNames linkName) = some id)
      m.device.store.files ((createNew .standard newcomer linkName).run
        m).2.device.store.files := by
  intro h
  have hlink : linkedStore.lstat? (hostNames linkName) = some 3 := by decide +kernel
  have hkept := ((h linkedDirectory (by decide +kernel)).refused ⟨3, hlink⟩).2
  have hbytes : linkedStore.files 2 = some [1, 2] := by decide +kernel
  have hcut : ((createNew .standard newcomer linkName).run linkedDirectory).2.device.store.files 2 =
      some [] := by
    decide +kernel
  rw [hkept] at hcut
  cases hcut.symm.trans hbytes

end Examples

end Filesystem

end RemoteMount
