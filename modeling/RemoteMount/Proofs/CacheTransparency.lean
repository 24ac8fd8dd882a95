import Mathlib.Data.List.Induction
import RemoteMount.Proofs.FaithfulCalls
import RemoteMount.Proofs.ListingCalls

namespace RemoteMount

open Memory Turns Program

theorem Call.cuts_of_resolve {call : Call String} {call' : Call RemotePath}
    (h : call.resolve = .ok call') :
    call'.cuts = call.cuts := by
  cases call with
  | rename old new =>
    obtain ⟨_, -, h⟩ := exists_of_bind_eq_ok h
    obtain ⟨_, -, h⟩ := exists_of_bind_eq_ok h
    cases h
    rfl
  | destroy =>
    cases h
    rfl
  | getattr text | readdir text | mkdir text | rmdir text | unlink text | create text
  | createNew text
  | read text | write text | truncate text =>
    simp only [resolve] at h
    cases hp : RemotePath.ofCaller text with
    | error e =>
      rw [hp] at h
      cases h
    | ok path =>
      rw [hp] at h
      cases h
      rfl

namespace Turns

variable {policy : Policy} {caller : Caller} {d : Device} {turns : List Turn}

theorem sound_take {s : State} {faults : Faults} {a : Step} (h : s.tree.WellFormed ∧ s.tree.Fits) :
    (s.take faults a).2.tree.WellFormed ∧ (s.take faults a).2.tree.Fits := by
  have harm : (s.shared.device.arm faults).tree.WellFormed ∧
      (s.shared.device.arm faults).tree.Fits := by
    rw [Device.tree_arm]
    exact h
  cases a with
  | size id => exact harm
  | cache a => exact harm
  | remote r =>
    have heffect := Device.answer_effect (s.shared.device.arm faults) r
    exact ⟨heffect.wellFormed harm.1, heffect.fits harm.2⟩

theorem run_append (t : Turn) :
    run policy caller d (turns ++ [t]) = (run policy caller d turns).turn policy caller t :=
  List.foldl_append

theorem ensures_programOfText {call : Call String} {s : State}
    (h : AllFaithful policy caller s.tree s.cache)
    (hf : s.tree.Fits) (hl : s.log = []) : (call.programOfText policy caller).Ensures
      (fun _ t ↦ (call.cuts = true → cutUnclosed t.log = false) →
        AllFaithful policy caller t.tree t.cache) s := by
  unfold Call.programOfText
  split
  · rename_i call' hr
    rw [← Call.cuts_of_resolve hr]
    exact call'.ensures_program h hf hl
  · exact fun _ ↦ h

theorem sound_run (ht : d.tree.WellFormed) (hf : d.tree.Fits) :
    (run policy caller d turns).shared.device.tree.WellFormed ∧
    (run policy caller d turns).shared.device.tree.Fits := by
  induction turns using List.reverseRecOn with
  | nil => exact ⟨ht, hf⟩
  | append_singleton turns t ih =>
    rw [run_append]
    exact Ensures.perform (ensures_of_steps (P := fun s ↦ s.tree.WellFormed ∧ s.tree.Fits)
      (fun _ _ _ ↦ sound_take) ih) t.faults

theorem allFaithful_run (ht : d.tree.WellFormed) (hf : d.tree.Fits)
    (hc : ∀ deed ∈ (run policy caller d turns).deeds, deed.call.cuts = true →
      cutUnclosed deed.log = false) :
    AllFaithful policy caller (run policy caller d turns).shared.device.tree
      (run policy caller d turns).shared.cache := by
  induction turns using List.reverseRecOn with
  | nil =>
    intro p a ha
    have hnone := AttributeCache.lookup_empty p
    rw [show (run policy caller d []).shared.cache = .empty from rfl, hnone] at ha
    cases ha
  | append_singleton turns t ih =>
    rw [run_append] at hc ⊢
    have hbefore := ih fun deed hd ↦ hc deed (List.mem_cons_of_mem _ hd)
    have hturn : (t.call.programOfText policy caller).Ensures
        (fun _ s ↦ (t.call.cuts = true → cutUnclosed s.log = false) →
        AllFaithful policy caller s.tree s.cache) ⟨(run policy caller d turns).shared, []⟩ :=
      ensures_programOfText hbefore (sound_run ht hf).2 rfl
    exact hturn.perform t.faults (hc _ List.mem_cons_self)

end Turns

namespace Filesystem

variable {policy : Policy} {caller : Caller} {m : CachedDevice Device} {path : RemotePath}

/-- In front of a device without a fault for listings, a faithful cache makes no difference to
`getattr`. -/
theorem run_getattr_clear (ht : m.device.tree.WellFormed)
    (h : Faithful policy caller m.device.tree m.cache path)
    (hf : m.device.faults.get? .listdir = none) : ((getattr policy caller path).run m).1 =
      ((getattr policy caller path).run { m with cache := m.cache.clear }).1 := by
  cases hn : path.name? with
  | none =>
    simp only [getattr, hn]
    rfl
  | some name =>
    rw [run_getattr_miss (m := { m with cache := m.cache.clear }) hn AttributeCache.lookup_clear]
    cases ha : m.cache.lookup path with
    | none => rw [run_getattr_miss hn ha]
    | some a =>
      have hat := h a ha
      obtain ⟨_, node, -, hnode, -⟩ := Tree.attributesAt_eq_some_iff.1 hat
      have hlisting := Tree.listing_eq_ok_iff.2 ⟨ht.parent_directory hnode, rfl⟩
      have hanswer : (RemoteDevice.answer (.listdir path.parent) m.device).1 =
          m.device.tree.listing path.parent :=
        congrArg Prod.fst (Device.answer_of_no_fault hf)
      rw [run_getattr_hit hn ha]
      simp only [hanswer, hlisting]
      split
      · rename_i name' a' hfind
        obtain rfl : name' = name := by simpa using List.find?_some hfind
        have hat' := Tree.attributesAt_of_mem hlisting rfl hn (List.mem_of_find?_eq_some hfind)
        rw [Option.some_inj.1 (hat.symm.trans hat')]
      · rename_i hfind
        have hm := Tree.mem_of_attributesAt hlisting rfl hn hat
        simpa using List.find?_eq_none.1 hfind _ hm

end Filesystem

namespace Turns

variable {policy : Policy} {caller : Caller} {d : Device} {turns : List Turn}

/-- However calls follow each other and whatever faults are armed, as long as every session in
which a file was cut is closed: a cached record is the one that a listing would give, and while
no listing is made to fail, `getattr` answers as it would with an empty cache. -/
theorem cache_transparent (policy : Policy) (caller : Caller) (d : Device) (turns : List Turn)
    (ht : d.tree.WellFormed) (hf : d.tree.Fits)
    (hc : ∀ deed ∈ (run policy caller d turns).deeds, deed.call.cuts = true →
      cutUnclosed deed.log = false)
    (p : RemotePath) :
    (∀ a, (run policy caller d turns).shared.cache.lookup p = some a →
      ∃ name node, p.name? = some name ∧
      (run policy caller d turns).shared.device.tree.get? p = some node ∧
      a = .ofEntry p (node.entry name) policy caller) ∧
    ((run policy caller d turns).shared.device.faults.get? .listdir = none →
      ((Filesystem.getattr policy caller p).run (run policy caller d turns).shared).1 =
        ((Filesystem.getattr policy caller p).run { (run policy caller d turns).shared with
          cache := (run policy caller d turns).shared.cache.clear }).1) := by
  have hfaithful := allFaithful_run ht hf hc p
  exact ⟨fun a ha ↦ Tree.attributesAt_eq_some_iff.1 (hfaithful a ha),
    fun hfault ↦ Filesystem.run_getattr_clear (sound_run ht hf).1 hfaithful hfault⟩

section Examples

def pilot : Caller := ⟨1000, 100, 42⟩

def logFile : RemotePath := Device.logDirectory.child ⟨"1.ulg", by decide⟩

def writtenLog : List Turn :=
  [⟨.create "/fs/microsd/log/1.ulg", []⟩, ⟨.getattr "/fs/microsd/log/1.ulg", []⟩,
    ⟨.write "/fs/microsd/log/1.ulg" [1, 2] 0, [[(.close, .ofCode Errno.io)]]⟩]

theorem cache_transparent_writtenLog : (∃ name node, logFile.name? = some name ∧
      (run .standard pilot .px4 writtenLog).shared.device.tree.get? logFile = some node ∧
      (⟨.file, 0o644, 2, 1000, 100⟩ : Attributes) =
        .ofEntry logFile (node.entry name) .standard pilot) ∧
    ((Filesystem.getattr .standard pilot logFile).run
      (run .standard pilot .px4 writtenLog).shared).1 =
      ((Filesystem.getattr .standard pilot logFile).run
        { (run .standard pilot .px4 writtenLog).shared with
        cache := (run .standard pilot .px4 writtenLog).shared.cache.clear }).1 := by
  have h := cache_transparent .standard pilot .px4 writtenLog (by decide +kernel)
    (by decide +kernel)
    (by decide +kernel) logFile
  exact ⟨h.1 _ (by decide +kernel), h.2 (by decide +kernel)⟩

end Examples

end Turns

end RemoteMount
