import RemoteMount.Proofs.CacheTransparency

namespace RemoteMount

open Memory Turns

theorem Memory.Tree.lengthAt_resize {t : Tree} {p : RemotePath} {old : Content} {length : UInt64} :
    lengthAt (t.insert p (.file (old.resize length.toNat))) p = length := by
  rw [lengthAt_of_file (KeyMap.get?_insert_self _ _ _), Content.size_resize]
  exact UInt64.ofNat_toNat

theorem TruncateOutcome.sizeAgrees_iff {path : RemotePath} {length : UInt64} {s t : State}
    (h : TruncateOutcome s path length t) (hs : SizeAgrees s.tree s.cache path) :
    SizeAgrees t.tree t.cache path ↔
      ¬(cutUnclosed t.log = true ∧ ∃ a, s.cache.lookup path = some a ∧ a.size ≠ length) := by
  cases h with
  | refused ht hc hl =>
    rw [ht, hc, hl]
    exact ⟨fun _ h ↦ Bool.false_ne_true h.1, fun _ ↦ hs⟩
  | unclosed ho ht hc hl =>
    rw [SizeAgrees, ht, hc, Tree.lengthAt_resize]
    constructor
    · intro h hx
      obtain ⟨-, a, ha, hne⟩ := hx
      exact hne (h a ha)
    · intro h a ha
      by_contra hne
      exact h ⟨hl, a, ha, hne⟩
  | restated ho ht hc hl =>
    rw [SizeAgrees, ht, hc, hl, Tree.lengthAt_resize]
    refine ⟨fun _ h ↦ Bool.false_ne_true h.1, fun _ a ha ↦ ?_⟩
    rw [AttributeCache.lookup_updateSize, if_pos rfl] at ha
    obtain ⟨r, -, rfl⟩ := Option.map_eq_some_iff.1 ha
    rfl

namespace Filesystem

/-- Whether it is granted or fails at any of its steps: after `truncate`, the size that is
cached for the path is the length of the file, unless the file was cut to another length than
the cached one and the session then failed to close. -/
theorem truncate_size_exact_iff (m : CachedDevice Device) (path : RemotePath) (length : UInt64)
    (faults : List Faults) (h : SizeAgrees m.device.tree m.cache path) :
    SizeAgrees (perform (truncate path length) m faults).2.tree
      (perform (truncate path length) m faults).2.cache path ↔
      ¬(cutUnclosed (perform (truncate path length) m faults).2.log = true ∧
        ∃ a, m.cache.lookup path = some a ∧ a.size ≠ length) :=
  TruncateOutcome.sizeAgrees_iff ((truncate_outcomes (s := ⟨m, []⟩) rfl).perform faults) h

section Examples

def fullLog : Device := { Device.px4 with tree := Device.px4.tree.insertFile logFile [1, 2, 3, 4] }

def getLog : List Turn := [⟨.getattr "/fs/microsd/log/1.ulg", []⟩]

def closeFails : List Faults := [[(.close, .ofCode Errno.io)]]

theorem allFaithful_fullLog :
    AllFaithful .standard pilot (run .standard pilot fullLog getLog).shared.device.tree
    (run .standard pilot fullLog getLog).shared.cache :=
  allFaithful_run (by decide +kernel) (by decide +kernel) (by decide +kernel)

theorem truncate_size_exact_iff_closeFails :
    SizeAgrees (perform (truncate logFile 1)
      (run .standard pilot fullLog getLog).shared closeFails).2.tree
        (perform (truncate logFile 1)
          (run .standard pilot fullLog getLog).shared closeFails).2.cache logFile ↔
      ¬(cutUnclosed (perform (truncate logFile 1)
        (run .standard pilot fullLog getLog).shared closeFails).2.log = true ∧
        ∃ a, (run .standard pilot fullLog getLog).shared.cache.lookup logFile = some a ∧
        a.size ≠ 1) :=
  truncate_size_exact_iff _ logFile 1 closeFails (allFaithful_fullLog logFile).sizeAgrees

/-- A cache that agrees with the device may hold the old size after `truncate` has failed. -/
theorem truncate_size_outdated :
    ¬∀ (policy : Policy) (caller : Caller) (m : CachedDevice Device) (path : RemotePath)
    (length : UInt64) (faults : List Faults), AllFaithful policy caller m.device.tree m.cache →
    SizeAgrees (perform (truncate path length) m faults).2.tree
      (perform (truncate path length) m faults).2.cache path := by
  intro h
  have hagrees := h .standard pilot
    (run .standard pilot fullLog getLog).shared logFile 1 closeFails allFaithful_fullLog
  have hsize := hagrees ⟨.file, 0o644, 4, 1000, 100⟩ (by decide +kernel)
  have hlength : (perform (truncate logFile 1)
      (run .standard pilot fullLog getLog).shared closeFails).2.tree.lengthAt
      logFile = 1 := by decide +kernel
  rw [hlength] at hsize
  cases hsize

end Examples

end Filesystem

end RemoteMount
