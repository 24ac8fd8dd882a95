import Mathlib.Data.List.Induction
import RemoteMount.Proofs.Host.Roots
import RemoteMount.Proofs.Memory.Walk

namespace RemoteMount

namespace Memory.Device

open RemotePath

variable {d : Device} {t : Tree}

theorem Effect.root {r : Request} (h : d.Effect r t) (hr : d.tree.get? .root = some .directory) :
    t.get? .root = some .directory := by
  cases h with
  | unchanged => exact hr
  | @emptied path hk =>
    rw [KeyMap.get?_insert, if_neg, hr]
    intro he
    exact hk (he ▸ hr)
  | stored _ _ ho =>
    rw [KeyMap.get?_insert, if_neg, hr]
    intro he
    cases (he ▸ hr).symm.trans ho
  | @made path hk =>
    rw [KeyMap.get?_insert, if_neg, hr]
    intro he
    cases (he ▸ hr).symm.trans hk
  | removedDirectory hne => rw [KeyMap.get?_erase, if_neg hne.symm, hr]
  | removedFile hk =>
    rw [KeyMap.get?_erase, if_neg, hr]
    intro he
    cases (he ▸ hr).symm.trans hk
  | moved ho hn =>
    have houtside : ∀ {p : RemotePath}, p ≠ .root → RemotePath.root.within p = false := fun hp ↦
      Bool.eq_false_iff.2 fun h ↦ hp (within_root_iff.1 h)
    rw [Tree.get?_moveSubtree_of_outside (houtside ho) (houtside hn), hr]

theorem root_run (hr : d.tree.get? .root = some .directory) (events : List Event) :
    (d.run events).tree.get? .root = some .directory := by
  induction events generalizing d with
  | nil => exact hr
  | cons event events ih =>
    cases event with
    | request r => exact ih ((answer_effect d r).root hr)
    | arm op e => exact ih (d := d.armFault op e) hr

theorem listdir_root (hr : d.tree.get? .root = some .directory) {e : RemoteError}
    (h : (d.answer (.listdir .root)).1 = .error e) : d.faults.get? .listdir = some e := by
  cases hf : d.faults.get? .listdir with
  | none =>
    rw [answer_listdir hf, Tree.listing, Tree.requireDirectory, hr] at h
    cases h
  | some e' =>
    rw [answer_of_fault hf] at h
    exact congrArg some (Except.error.inj h)

end Memory.Device

namespace Host.Device

variable {d : Device} {requests : List Request}

def served (d : Device) (requests : List Request) : Device :=
  requests.foldl (fun d r ↦ (d.answer r).2) d

theorem served_concat (d : Device) (requests : List Request) (r : Request) :
    d.served (requests ++ [r]) = ((d.served requests).answer r).2 := List.foldl_concat _ _ _ _

theorem Sound.served (h : d.Sound) (requests : List Request) : (d.served requests).Sound := by
  induction requests generalizing d with
  | nil => exact h
  | cons r requests ih => exact ih (h.answer r)

theorem plain_served (hs : d.Sound) (h : d.store.Plain) (requests : List Request) :
    (d.served requests).store.Plain := by
  induction requests generalizing d with
  | nil => exact h
  | cons r requests ih => exact ih (hs.answer r) (hs.plain_answer h r)

/-- While the served directory is in its place, it can be listed after a request that does not
uproot, and only then. -/
theorem listed_answer_iff (hs : d.Sound) (hr : d.store.Rooted) (r : Request) :
    (∃ rows, listing (d.answer r).2.store .root = .ok rows) ↔ ¬Uproots d r := by
  have hleaves := leaves_answer hs hr r
  constructor
  · intro hlisted hu
    obtain ⟨rows, hlisted⟩ := hlisted
    cases (listing_of_bare (hleaves.bare hu)).symm.trans hlisted
  · exact fun hu ↦ listing_of_rooted (hleaves.rooted hu)

theorem rooted_served (hs : d.Sound) (hr : d.store.Rooted)
    (hu : ∀ earlier r, earlier ++ [r] <+: requests → (d.served earlier).store.Rooted →
      ¬Uproots (d.served earlier) r) :
    (d.served requests).store.Rooted := by
  induction requests using List.reverseRecOn with
  | nil => exact hr
  | append_singleton requests r ih =>
    have hrooted := ih fun earlier r' hp ↦ hu earlier r' (hp.trans (List.prefix_append _ _))
    rw [served_concat]
    exact (leaves_answer (hs.served requests) hrooted r).rooted
      (hu requests r (List.prefix_refl _) hrooted)

theorem listed_iff_not_uproots (hs : d.Sound) (hr : d.store.Rooted) :
    (∀ earlier, earlier <+: requests → ∃ rows, listing (d.served earlier).store .root = .ok rows) ↔
      ∀ earlier r, earlier ++ [r] <+: requests → ¬Uproots (d.served earlier) r := by
  constructor
  · intro hlisted earlier r hp
    -- What can be listed was not uprooted by the last request, which keeps it rooted for the next.
    have hstep : ∀ earlier r, earlier ++ [r] <+: requests → (d.served earlier).store.Rooted →
        ¬Uproots (d.served earlier) r := by
      intro earlier r hp hrooted
      refine (listed_answer_iff (hs.served earlier) hrooted r).1 ?_
      rw [← served_concat]
      exact hlisted _ hp
    refine hstep earlier r hp (rooted_served hs hr fun sooner r' hsooner ↦ ?_)
    exact hstep sooner r' (hsooner.trans ((List.prefix_append _ _).trans hp))
  · intro hu earlier hp
    exact listing_of_rooted (rooted_served hs hr fun sooner r hsooner _ ↦
      hu sooner r (hsooner.trans hp))

end Host.Device

/-- In memory the root stays a directory, whatever is asked for and whatever faults are armed,
and only a fault keeps it from being listed. A served directory can be listed after each of any
requests if and only if none of them uproots; without links only the removal of the root itself
does. -/
theorem root_survives_iff {m : Memory.Device} (hm : m.tree.get? .root = some .directory)
    (events : List Memory.Device.Event)
    {d : Host.Device} (hs : d.Sound) (hr : d.store.Rooted) (requests : List Request) :
    ((m.run events).tree.get? .root = some .directory ∧ ∀ e,
      ((m.run events).answer (.listdir .root)).1 = .error e →
      (m.run events).faults.get? .listdir = some e) ∧
    ((∀ earlier, earlier <+: requests →
      ∃ rows, ((d.served earlier).answer (.listdir .root)).1 = .ok rows) ↔
      ∀ earlier r, earlier ++ [r] <+: requests → ¬Host.Device.Uproots (d.served earlier) r) ∧
    (d.store.Plain → ∀ earlier r, Host.Device.Uproots (d.served earlier) r → r = .rmdir .root) := by
  have hroot := Memory.Device.root_run hm events
  refine ⟨⟨hroot, fun e he ↦ Memory.Device.listdir_root hroot he⟩,
    Host.Device.listed_iff_not_uproots hs hr, ?_⟩
  exact fun hp earlier r hu ↦ hu.eq_rmdir (Host.Device.plain_served hs hp earlier)

section Examples

open Host (Device)

theorem rooted_oneFile : Device.oneFile.store.Rooted := ⟨1, by decide +kernel, by decide +kernel⟩

theorem root_survives_iff_removal :
    (Memory.Device.px4.run [.request (.rmdir .root)]).tree.get? .root = some .directory ∧
    ∃ rows, ((Device.oneFile.served [.rmdir .root]).answer (.listdir .root)).1 = .ok rows := by
  have h := root_survives_iff (m := .px4) (d := .oneFile) (by decide)
    [.request (.rmdir .root)] Device.sound_oneFile
    rooted_oneFile [.rmdir .root]
  refine ⟨h.1.1, h.2.1.2 (fun earlier r hp hu ↦ ?_) [.rmdir .root] (List.prefix_refl _)⟩
  obtain ⟨rest, hrest⟩ := hp
  cases earlier with
  | cons first earlier => simp at hrest
  | nil =>
    obtain ⟨rfl, -⟩ := List.cons.inj hrest
    cases hu with
    | removed hid he =>
      have hone : (Device.oneFile.store.entries Host.FileStore.top).get? Device.servedName =
          some 1 := by
        decide +kernel
      obtain rfl := Option.some.inj (hone.symm.trans hid)
      exact absurd he (by decide +kernel)

def bareRoot : Device := ⟨Host.FileStore.empty.put (.directory []), .empty, 0⟩

/-- The empty directory is removed, and is not found then. -/
theorem root_lost_to_rmdir : ¬∀ (d : Device), d.Sound → d.store.Rooted → ∀ requests,
    ∃ rows, ((d.served requests).answer (.listdir .root)).1 = .ok rows := by
  intro h
  have hsound : bareRoot.Sound :=
    ⟨Host.FileStore.wellFormed_put Host.FileStore.wellFormed_empty (.directory []),
      fun _ _ hs ↦ by cases hs⟩
  obtain ⟨rows, hrows⟩ := h bareRoot hsound ⟨1, by decide +kernel, by decide +kernel⟩ [.rmdir .root]
  have hlost : ((bareRoot.served [.rmdir .root]).answer (.listdir .root)).1 =
      .error (.ofHost Errno.noent) :=
    Device.listing_of_bare (by decide +kernel)
  cases hlost.symm.trans hrows

end Examples

end RemoteMount
