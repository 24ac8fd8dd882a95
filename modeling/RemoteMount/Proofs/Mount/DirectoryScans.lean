import RemoteMount.Proofs.Mount.DirectoryRows
import RemoteMount.Proofs.Mount.KeptEntries

namespace RemoteMount

open Memory RemotePath

namespace Filesystem

def withDots (rows : List DirectoryRow) : List DirectoryRow :=
  ⟨".", .directory⟩ :: ⟨"..", .directory⟩ :: rows

end Filesystem

namespace Mount

open Filesystem (DirectoryRow withDots)

/-- A page of a directory: what happens before it is asked for, who asks, and what the reply
takes. -/
structure Page where
  before : List Event
  caller : Caller
  buffer : RowBuffer

/-- How far the kernel has come with a directory. -/
structure Scan where
  mount : Mount Device
  ino : Nat
  place? : Option RemotePath
  accepted : List InodeRow

def InodeRow.shown (row : InodeRow) : DirectoryRow := ⟨row.name, row.kind⟩

def InodeRow.numbered (row : InodeRow) : DirectoryRow × Nat := (row.shown, row.next)

namespace Scan

def start (m : Mount Device) (ino : Nat) (dir : RemotePath) : Scan := ⟨m, ino, some dir, []⟩

def offset (s : Scan) : Nat := (s.accepted.getLast?.map InodeRow.next).getD 0

def pass (s : Scan) (events : List Event) : Scan :=
  { s with
    mount := s.mount.run events, place? := s.place?.bind fun cur ↦ s.mount.follow cur events }

def reply (s : Scan) (page : Page) : Except CallError (List InodeRow) × Mount Device :=
  readdirInto page.buffer s.mount page.caller s.ino s.offset

/-- A page that fails adds nothing, so it is the next one to be asked for again. -/
def turn (s : Scan) (page : Page) : Scan :=
  let asked := s.pass page.before
  { asked with
    mount := (asked.reply page).2
    accepted := s.accepted ++ (asked.reply page).1.toOption.getD [] }

def after (s : Scan) (pages : List Page) : Scan := pages.foldl turn s

def asked : Scan → List Page → List (Scan × Page)
  | _, [] => []
  | s, page :: pages => (s.pass page.before, page) :: asked (s.turn page) pages

def served (s : Scan) (pages : List Page) : Nat :=
  (s.asked pages).countP fun x ↦ (x.1.reply x.2).1.isOk

def Keeps (s : Scan) (rows : List DirectoryRow) : Prop :=
  ∃ cur, s.place? = some cur ∧ s.mount.base.device.tree.entries cur = .ok rows

def Spared : Scan → List Page → Prop
  | _, [] => True
  | s, page :: pages =>
    (∀ cur, s.place? = some cur → s.mount.Spared cur page.before) ∧ (s.turn page).Spared pages

theorem toOption_eq_some_iff {α ε : Type} {x : Except ε α} {a : α} :
    x.toOption = some a ↔ x = .ok a := by
  cases x <;> simp [Except.toOption]

/-- As a page is asked for, the directory has its entries, and the reply takes one of the rows
that are left, if any. -/
structure Undisturbed (s : Scan) (rows : List DirectoryRow) (page : Page) : Prop where
  kept : s.Keeps rows
  roomy : ∀ l, (s.mount.allRows page.caller s.ino).1 = .ok l →
    page.buffer.taken (l.drop s.offset) = [] →
    l.drop s.offset = []

instance (s : Scan) (rows : List DirectoryRow) : Decidable (s.Keeps rows) :=
  decidable_of_iff (s.place?.map s.mount.base.device.tree.entries = some (.ok rows))
    Option.map_eq_some_iff

instance (s : Scan) (rows : List DirectoryRow) (page : Page) :
    Decidable (s.Undisturbed rows page) :=
  decidable_of_iff (s.Keeps rows ∧ ∀ l ∈ (s.mount.allRows page.caller s.ino).1.toOption,
      page.buffer.taken (l.drop s.offset) = [] → l.drop s.offset = [])
    ⟨fun h ↦ ⟨h.1, fun l hl ↦ h.2 l (toOption_eq_some_iff.2 hl)⟩,
      fun h ↦ ⟨h.kept, fun l hl ↦ h.roomy l (toOption_eq_some_iff.1 hl)⟩⟩

/-- The number was given up, or the device is to fail the listing. -/
def Refused (s : Scan) : Prop :=
  s.mount.inodes.path? s.ino = none ∨ (s.mount.base.device.faults.get? .listdir).isSome

/-- What holds at every moment of a scan. -/
structure Sound (s : Scan) (rows : List DirectoryRow) : Prop where
  inodes : s.mount.inodes.Sound
  tracks : ∀ cur, s.place? = some cur → s.mount.inodes.Tracks s.ino cur
  accepted : s.accepted.map InodeRow.numbered <+: (withDots rows).zipIdx 1

end Scan

variable {m : Mount Device} {ino i : Nat} {dir cur last : RemotePath}
variable {rows : List DirectoryRow} {l : List InodeRow} {s : Scan} {page : Page} {pages : List Page}

section Events

theorem inodes_sound_next (hm : m.inodes.Sound) (e : Event) : (m.next e).inodes.Sound := by
  cases e with
  | arm op e => exact hm
  | callback caller c => exact (answered m caller c).inodes_sound hm

theorem inodes_sound_run (hm : m.inodes.Sound) (events : List Event) :
    (m.run events).inodes.Sound := by
  induction events generalizing m with
  | nil => exact hm
  | cons e events ih => exact ih (inodes_sound_next hm e)

theorem tracks_run (hm : m.inodes.Sound) (hi : m.inodes.Tracks i cur) (events : List Event)
    (h : m.follow cur events = some last) : (m.run events).inodes.Tracks i last := by
  induction events generalizing m cur with
  | nil =>
    obtain rfl := Option.some_inj.1 h
    exact hi
  | cons e events ih =>
    obtain ⟨cur', hcur, hrest⟩ := Option.bind_eq_some_iff.1 h
    refine ih (inodes_sound_next hm e) ?_ hrest
    cases e with
    | arm op e =>
      obtain rfl := Option.some_inj.1 hcur
      exact hi
    | callback caller c => exact (answered m caller c).tracks hm hi hcur

end Events

section Page

theorem childRows_of_listing {t : Tree} {listed : List ListingEntry}
    (h : t.listing dir = .ok listed) :
    Filesystem.childRows listed = listed.map fun row ↦ ⟨row.name, row.kind⟩ := by
  rw [Filesystem.childRows, List.filter_eq_self.2]
  intro row hrow
  obtain ⟨p, node, -, -, -, hj⟩ := Tree.exists_of_mem_listing h hrow
  exact decide_eq_true (join_eq_ok_iff_components.1 hj).1

theorem allRows_of_entries (caller : Caller) (hm : m.inodes.Sound)
    (hdir : m.inodes.path? ino = some dir)
    (hf : m.base.device.faults.get? .listdir = none)
    (hrows : m.base.device.tree.entries dir = .ok rows) :
    ∃ l : List InodeRow, l.map InodeRow.numbered = (withDots rows).zipIdx 1 ∧
    (m.allRows caller ino).1 = .ok l := by
  obtain ⟨listed, hlisted, rfl⟩ := Tree.entries_eq_ok_iff.1 hrows
  obtain ⟨children, m', hall, hlists⟩ :=
    allRows_of_listed caller hm hdir ((Device.answer_listdir hf dir).trans hlisted)
  refine ⟨_, ?_, congrArg Prod.fst hall⟩
  have hshown : children.map InodeRow.shown = listed.map fun row ↦ ⟨row.name, row.kind⟩ :=
    hlists.shown.trans (childRows_of_listing hlisted)
  have hlength : (children.map InodeRow.shown).length = children.length := List.length_map _
  have hchildren : children.map InodeRow.numbered = (children.map InodeRow.shown).zipIdx 3 := by
    rw [List.zipIdx_eq_zip_range', hlength, ← hlists.next, List.zip_map']
    rfl
  rw [List.map_cons, List.map_cons, hchildren, hshown]
  rfl

theorem readdirInto_of_allRows {buffer : RowBuffer} {caller : Caller} {offset : Int}
    (h : (m.allRows caller ino).1 = .ok l) :
    (readdirInto buffer m caller ino offset).1 = .ok (buffer.taken (l.drop offset.toNat)) := by
  rw [readdirInto_eq, h]
  rfl

theorem next_readdir (buffer : RowBuffer) (m : Mount Device) (caller : Caller) (ino : Nat)
    (offset : Int) (room : Nat) :
    m.next (.callback caller (.readdir ino offset room)) =
      (readdirInto buffer m caller ino offset).2 := by
  change (readdirInto (.ofSize room) m caller ino offset).2 = _
  rw [readdirInto_eq, readdirInto_eq]

theorem reply_of_refused (h : s.Refused) : ∃ e, (s.reply page).1 = .error e := by
  rw [Scan.reply, readdirInto_eq, allRows, pathOf]
  cases hpath : s.mount.inodes.path? s.ino with
  | none => exact ⟨_, rfl⟩
  | some dir =>
    obtain ⟨e, he⟩ := Option.isSome_iff_exists.1 (h.resolve_left (hpath ▸ Option.some_ne_none dir))
    have hfails : (RemoteDevice.answer (.listdir dir) s.mount.base.device).1 = .error e :=
      congrArg Prod.fst (Device.answer_of_fault he)
    have hread := Filesystem.run_readdir_of_error s.mount.config.policy page.caller hfails
    dsimp only
    rw [call_eq]
    generalize (Filesystem.readdir s.mount.config.policy page.caller dir).run s.mount.base =
      x at hread
    obtain ⟨x, b⟩ := x
    obtain rfl : x = _ := hread
    exact ⟨_, rfl⟩

end Page

namespace Scan

theorem Sound.next_eq (h : s.Sound rows) :
    s.accepted.map InodeRow.next = List.range' 1 s.accepted.length := by
  have hsnd := h.accepted.map Prod.snd
  rw [List.map_map, List.zipIdx_map_snd] at hsnd
  have hle := hsnd.length_le
  rw [List.length_map, List.length_range'] at hle
  have htake := List.prefix_iff_eq_take.1 hsnd
  rwa [List.length_map, List.take_range'_of_length_ge hle] at htake

theorem shown_prefix_of_numbered (h : l.map InodeRow.numbered <+: (withDots rows).zipIdx 1) :
    l.map InodeRow.shown <+: withDots rows := by
  have hfst := h.map Prod.fst
  rwa [List.map_map, List.zipIdx_map_fst] at hfst

/-- The offset counts the rows that were accepted. -/
theorem Sound.offset_eq (h : s.Sound rows) : s.offset = s.accepted.length := by
  rw [offset, ← List.getLast?_map, h.next_eq, List.getLast?_range']
  split
  · rename_i hnone
    exact hnone.symm
  · exact Nat.add_sub_cancel_left 1 _

theorem Sound.complete_iff (h : s.Sound rows) :
    s.accepted.map InodeRow.shown = withDots rows ↔ (withDots rows).length ≤ s.accepted.length := by
  constructor
  · intro hall
    rw [← hall, List.length_map]
  · intro hlength
    exact (shown_prefix_of_numbered h.accepted).eq_of_length_le (by rwa [List.length_map])

theorem Sound.pass (h : s.Sound rows) (events : List Event) : (s.pass events).Sound rows := by
  refine ⟨inodes_sound_run h.inodes events, fun cur hcur ↦ ?_, h.accepted⟩
  obtain ⟨cur', hplace, hfollow⟩ := Option.bind_eq_some_iff.1 hcur
  exact tracks_run h.inodes (h.tracks cur' hplace) events hfollow

theorem Sound.reply_of_served (h : s.Sound rows) (page : Page) (hk : s.Keeps rows)
    (hr : ¬s.Refused) :
    ∃ l : List InodeRow, l.map InodeRow.numbered = (withDots rows).zipIdx 1 ∧
      (s.mount.allRows page.caller s.ino).1 = .ok l ∧
      (s.reply page).1 = .ok (page.buffer.taken (l.drop s.accepted.length)) := by
  obtain ⟨hpath, hfault⟩ := not_or.1 hr
  obtain ⟨cur, hplace, hrows⟩ := hk
  have hcur := ((h.tracks cur hplace).2.resolve_left hpath).1
  obtain ⟨l, hl, hall⟩ := allRows_of_entries page.caller h.inodes hcur
    (Option.not_isSome_iff_eq_none.1 hfault) hrows
  refine ⟨l, hl, hall, (readdirInto_of_allRows hall).trans ?_⟩
  rw [Int.toNat_natCast, h.offset_eq]

theorem Sound.accepted_append_drop (h : s.Sound rows)
    (hl : l.map InodeRow.numbered = (withDots rows).zipIdx 1) :
    (s.accepted ++ l.drop s.accepted.length).map InodeRow.numbered = (withDots rows).zipIdx 1 := by
  rw [List.map_append, List.map_drop, hl]
  conv_rhs => rw [List.prefix_append_drop h.accepted, List.length_map]

/-- A page goes on exactly behind the rows before, and only behind the last row of the directory
it is empty. -/
theorem Sound.reply_cases (h : s.Sound rows) (hu : s.Undisturbed rows page) :
    (s.Refused ∧ ∃ e, (s.reply page).1 = .error e) ∨ ¬s.Refused ∧ ∃ got,
      (s.reply page).1 = .ok got ∧
      (s.accepted ++ got).map InodeRow.numbered <+: (withDots rows).zipIdx 1 ∧
      (got = [] ↔ s.accepted.map InodeRow.shown = withDots rows) := by
  by_cases hr : s.Refused
  · exact .inl ⟨hr, reply_of_refused hr⟩
  · obtain ⟨l, hl, hall, hreply⟩ := h.reply_of_served page hu.kept hr
    have hfront := page.buffer.taken_front (l.drop s.accepted.length)
    refine .inr ⟨hr, _, hreply, ?_, ?_⟩
    · rw [← h.accepted_append_drop hl]
      exact ((List.prefix_append_right_inj _).2 hfront).map _
    · have hlength : l.length = (withDots rows).length := by
        rw [← List.length_map InodeRow.numbered, hl, List.length_zipIdx]
      have hroomy := hu.roomy l hall
      rw [h.offset_eq] at hroomy
      have hnil : page.buffer.taken (l.drop s.accepted.length) = [] ↔
          l.drop s.accepted.length = [] :=
        ⟨hroomy, fun he ↦ List.prefix_nil.1 (he ▸ hfront)⟩
      rw [hnil, List.drop_eq_nil_iff, hlength, h.complete_iff]

theorem follow_readdir (m : Mount Device) (cur : RemotePath) (caller : Caller) (ino : Nat)
    (offset : Int) (room : Nat) :
    m.follow cur [.callback caller (.readdir ino offset room)] = some cur := by
  rw [follow, relocated]
  cases (m.answer caller (.readdir ino offset room)).1 <;> rfl

theorem turn_eq (s : Scan) (page : Page) : s.turn page =
    { (s.pass page.before).pass [.callback page.caller (.readdir s.ino s.offset 0)] with
      accepted := s.accepted ++ ((s.pass page.before).reply page).1.toOption.getD [] } := by
  have hmount : (s.pass page.before).mount.run [.callback page.caller (.readdir s.ino s.offset 0)] =
      ((s.pass page.before).reply page).2 := next_readdir page.buffer ..
  simp only [turn, pass, follow_readdir, Option.bind_fun_some] at hmount ⊢
  rw [hmount]

theorem Sound.turn (h : s.Sound rows) (hu : (s.pass page.before).Undisturbed rows page) :
    (s.turn page).Sound rows := by
  have hasked := h.pass page.before
  obtain ⟨hinodes, htracks, -⟩ := hasked.pass [.callback page.caller (.readdir s.ino s.offset 0)]
  rw [turn_eq]
  refine ⟨hinodes, htracks, ?_⟩
  dsimp only
  rcases hasked.reply_cases hu with ⟨-, e, he⟩ | ⟨-, got, hgot, hprefix, -⟩
  · rw [he]
    exact (List.append_nil s.accepted).symm ▸ h.accepted
  · rw [hgot]
    exact hprefix

theorem Sound.asked (h : s.Sound rows) (hu : ∀ x ∈ s.asked pages, x.1.Undisturbed rows x.2) :
    ∀ x ∈ s.asked pages, x.1.Sound rows := by
  induction pages generalizing s with
  | nil => exact nofun
  | cons page pages ih =>
    obtain ⟨hpage, hpages⟩ := List.forall_mem_cons.1 hu
    exact List.forall_mem_cons.2 ⟨h.pass page.before, ih (h.turn hpage) hpages⟩

theorem Sound.after (h : s.Sound rows) (hu : ∀ x ∈ s.asked pages, x.1.Undisturbed rows x.2) :
    (s.after pages).Sound rows := by
  induction pages generalizing s with
  | nil => exact h
  | cons page pages ih =>
    obtain ⟨hpage, hpages⟩ := List.forall_mem_cons.1 hu
    exact ih (h.turn hpage) hpages

/-- Every page that is served brings a row, until there are all. -/
theorem Sound.progress (h : s.Sound rows) (hu : ∀ x ∈ s.asked pages, x.1.Undisturbed rows x.2) :
    min (withDots rows).length (s.accepted.length + s.served pages) ≤
      (s.after pages).accepted.length := by
  induction pages generalizing s with
  | nil => exact Nat.min_le_right _ _
  | cons page pages ih =>
    obtain ⟨hpage, hpages⟩ := List.forall_mem_cons.1 hu
    have hrest := ih (h.turn hpage) hpages
    have hserved : s.served (page :: pages) =
        (s.turn page).served pages + if ((s.pass page.before).reply page).1.isOk then 1 else 0 :=
          List.countP_cons
    have hlength : (s.turn page).accepted.length =
        s.accepted.length + (((s.pass page.before).reply page).1.toOption.getD []).length :=
          List.length_append
    refine le_trans ?_ hrest
    rw [hserved, hlength]
    rcases (h.pass page.before).reply_cases hpage with ⟨-, e, he⟩ | ⟨-, got, hgot, -, hnil⟩
    · rw [he]
      exact le_rfl
    · -- An empty page counts as served too, but only after the last row.
      have hall : got.length = 0 → (withDots rows).length ≤ s.accepted.length :=
        fun he ↦ (h.pass page.before).complete_iff.1 (hnil.1 (List.length_eq_zero_iff.1 he))
      rw [hgot]
      change min _ (_ + (_ + 1)) ≤ min _ (_ + got.length + _)
      omega

theorem Keeps.pass (h : s.Keeps rows) (events : List Event)
    (hs : ∀ cur, s.place? = some cur → s.mount.Spared cur events) : (s.pass events).Keeps rows := by
  obtain ⟨cur, hplace, hrows⟩ := h
  obtain ⟨last, hlast, hkept⟩ := entries_run hrows (hs cur hplace)
  exact ⟨last, (congrArg (Option.bind · _) hplace).trans hlast, hkept⟩

theorem spared_readdir (m : Mount Device) (cur : RemotePath) (caller : Caller) (ino : Nat)
    (offset : Int) (room : Nat) :
    m.Spared cur [.callback caller (.readdir ino offset room)] :=
  ⟨.inl fun _ ↦ False.elim, fun _ _ ↦ trivial⟩

theorem Keeps.turn (h : (s.pass page.before).Keeps rows) : (s.turn page).Keeps rows := by
  rw [turn_eq]
  exact h.pass [.callback page.caller (.readdir s.ino s.offset 0)] fun cur _ ↦
    spared_readdir _ cur ..

theorem Keeps.asked (h : s.Keeps rows) (hs : s.Spared pages) :
    ∀ x ∈ s.asked pages, x.1.Keeps rows := by
  induction pages generalizing s with
  | nil => exact nofun
  | cons page pages ih =>
    have hpage := h.pass page.before hs.1
    exact List.forall_mem_cons.2 ⟨hpage, ih hpage.turn hs.2⟩

theorem sound_start (hm : m.inodes.Sound) (hino : m.inodes.inode? dir = some ino) :
    (start m ino dir).Sound rows := by
  refine ⟨hm, ?_, List.nil_prefix⟩
  intro cur hcur
  obtain rfl := Option.some_inj.1 hcur
  have hpath := hm.path_of_inode _ _ hino
  exact ⟨hm.lt_next _ _ hpath, .inr ⟨hpath, hino⟩⟩

end Scan

theorem nodup_names_withDots {t : Tree} (h : t.entries dir = .ok rows) :
    ((withDots rows).map DirectoryRow.name).Nodup := by
  have hchild : ∀ name ∈ rows.map DirectoryRow.name, IsSegment name := by
    intro name hname
    obtain ⟨row, hrow, rfl⟩ := List.mem_map.1 hname
    obtain ⟨segment, hsegment, -⟩ := (Tree.mem_entries h).1 hrow
    exact hsegment ▸ segment.valid
  have hdot : "." ∉ rows.map DirectoryRow.name := fun hname ↦ absurd (hchild _ hname) (by decide)
  have hdots : ".." ∉ rows.map DirectoryRow.name := fun hname ↦ absurd (hchild _ hname) (by decide)
  rw [withDots, List.map_cons, List.map_cons, List.nodup_cons, List.nodup_cons, List.mem_cons]
  exact ⟨by simp [hdot], hdots, Tree.nodup_names_of_entries h⟩

/-- A scan of a directory that keeps its entries. A page fails exactly if the number of the
directory was given up or the device fails the listing. Any other goes on behind the rows so
far, and it is empty exactly if there are all of them. So with as many pages served as there are
rows, the scan has shown the directory itself, its parent and every entry, each once and in the
order of the listing. The pages themselves leave the entries, and so does what happens elsewhere
in between and a rename that takes the directory along. -/
theorem scan_shows_entries_once (d : Device) (config : Config) (history : List Event)
    (hm : (Mount.start d config).run history = m) (hino : m.inodes.inode? dir = some ino)
    (hrows : m.base.device.tree.entries dir = .ok rows) :
    ((withDots rows).map DirectoryRow.name).Nodup ∧
    (∀ pages, (Scan.start m ino dir).Spared pages → ∀ x ∈ (Scan.start m ino dir).asked pages,
      x.1.Keeps rows) ∧
    ∀ pages, (∀ x ∈ (Scan.start m ino dir).asked pages, x.1.Undisturbed rows x.2) →
      (∀ x ∈ (Scan.start m ino dir).asked pages,
        ((∃ e, (x.1.reply x.2).1 = .error e) ↔ x.1.Refused) ∧
        ∀ got, (x.1.reply x.2).1 = .ok got →
        (x.1.accepted ++ got).map InodeRow.shown <+: withDots rows ∧
          (got = [] ↔ x.1.accepted.map InodeRow.shown = withDots rows)) ∧
      ((withDots rows).length ≤ (Scan.start m ino dir).served pages →
        ((Scan.start m ino dir).after pages).accepted.map InodeRow.shown = withDots rows) := by
  subst hm
  have hsound : (Scan.start ((Mount.start d config).run history) ino dir).Sound rows :=
    Scan.sound_start (inodes_sound_run InodeTable.sound_initial history) hino
  refine ⟨nodup_names_withDots hrows, ?_, fun pages hu ↦ ⟨fun x hx ↦ ?_, fun hserved ↦ ?_⟩⟩
  · exact fun pages hspared ↦ Scan.Keeps.asked ⟨dir, rfl, hrows⟩ hspared
  · rcases (hsound.asked hu x hx).reply_cases (hu x hx) with
      ⟨hr, e, he⟩ | ⟨hr, got, hgot, hprefix, hnil⟩
    · rw [he]
      exact ⟨iff_of_true ⟨e, rfl⟩ hr, nofun⟩
    · rw [hgot]
      refine ⟨iff_of_false (by rintro ⟨e, ⟨⟩⟩) hr, ?_⟩
      rintro _ ⟨⟩
      exact ⟨Scan.shown_prefix_of_numbered hprefix, hnil⟩
  · have hprogress := hsound.progress hu
    rw [(hsound.after hu).complete_iff]
    omega

section Examples

open Turns (pilot)

def openedCard : Mount Device := (Mount.start Device.px4 .standard).run openedLogs

def slowPages : List Page :=
  [⟨[.callback pilot madeLog, .callback pilot (.write 5 [1, 2, 3] 0)], pilot, .ofSize 32⟩,
    ⟨[.callback pilot (.rename 4 (.text "1.ulg") 4 (.text "kept.ulg") 0)], pilot, .ofSize 63⟩,
    ⟨[.arm .listdir RemoteError.timeout], pilot, .ofSize 32⟩,
    ⟨[.callback pilot (.unlink 4 (.text "kept.ulg")), .callback pilot (.forget 5 1)], pilot,
      .ofSize 32⟩,
    ⟨[.callback pilot (.lookup 3 (.text "log"))], pilot, .ofSize 0⟩]

theorem scan_shows_entries_once_slowPages :
    ((Scan.start openedCard 3 .storageCard).after slowPages).accepted.map InodeRow.shown =
      [⟨".", .directory⟩, ⟨"..", .directory⟩, ⟨"log", .directory⟩] := by
  have hino : openedCard.inodes.inode? .storageCard = some 3 := by decide +kernel
  have hrows : openedCard.base.device.tree.entries .storageCard = .ok [⟨"log", .directory⟩] := by
    decide +kernel
  obtain ⟨-, -, hscan⟩ := scan_shows_entries_once Device.px4 .standard openedLogs rfl hino hrows
  exact (hscan slowPages (by decide +kernel)).2 (by decide +kernel)

end Examples

end Mount

end RemoteMount
