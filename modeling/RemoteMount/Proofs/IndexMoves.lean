import RemoteMount.Proofs.InodeOperations

namespace RemoteMount.InodeTable

open RemotePath

variable {t : InodeTable} {old new : RemotePath} {moved : List (RemotePath × Nat)}

/-- What all at or below `old` has gone to `new` makes of a table. A mapping that was at or
below `new` already is dropped, and is not moved even if it was below `old` as well. -/
structure SubtreeMoved (t : InodeTable) (old new : RemotePath) (t' : InodeTable) : Prop where
  index : ∀ q, t'.inode? q =
    if q.within new then (q.rebase new old).bind fun p ↦ if p.within new then none else t.inode? p
    else if q.within old then none else t.inode? q
  moved : ∀ p i target, t.inode? p = some i → p.within new = false →
    p.rebase old new = some target →
    t'.path? i = some target
  others : ∀ i, (∀ p, t.inode? p = some i → p.within old = true → p.within new = true) →
    t'.path? i = t.path? i
  lookups : ∀ i, t'.lookups? i = t.lookups? i
  entries : t'.entries.keys = t.entries.keys

theorem subtreeMoved_renameInOrder (h : t.Sound) (hmoved : moved.Perm (t.movedMappings old new)) :
    t.SubtreeMoved old new (t.renameInOrder old new moved) where
  index := fun _ ↦ inode?_renameInOrder hmoved
  moved := fun _ _ _ hp hn ht ↦ path?_renameInOrder_of_moved hmoved h hp hn ht
  others := fun _ hk ↦ path?_renameInOrder_of_kept hmoved hk
  lookups := lookups?_renameInOrder moved
  entries := keys_renameInOrder moved

/-- The mappings come in any order, as those of a hash map do: the outcome is the same move of a
subtree. -/
theorem rename_moves_index (ops : List InodeOp) (hne : old ≠ new) :
    (initial.after ops).SubtreeMoved old new ((initial.after ops).rename old new) ∧
    ∀ moved : List (RemotePath × Nat), moved.Perm ((initial.after ops).movedMappings old new) →
      (initial.after ops).SubtreeMoved old new
        ((initial.after ops).renameInOrder old new moved) := by
  have hsound := (grows_after sound_initial ops).sound
  refine ⟨?_, fun moved hmoved ↦ subtreeMoved_renameInOrder hsound hmoved⟩
  rw [rename_of_ne hne]
  exact subtreeMoved_renameInOrder hsound (List.Perm.refl _)

section Examples

def oldLogs : RemotePath := logs.child ⟨"old", by decide⟩

def latestLog : RemotePath := logs.child ⟨"latest.ulg", by decide⟩

def logsLookedUp : List InodeOp := [.lookup logs, .lookup oldLogs, .lookup latestLog]

example :
    (initial.after logsLookedUp).movedMappings logs oldLogs = [(logs, 2), (latestLog, 4)] := by
  decide +kernel

/-- Moved into itself, the directory takes the place of what was there, and the file goes along.
The file may be moved first: nothing that was moved is moved again. -/
theorem rename_moves_index_intoItself : logs ≠ oldLogs ∧
    [(latestLog, 4), (logs, 2)].Perm ((initial.after logsLookedUp).movedMappings logs oldLogs) ∧
    ((initial.after logsLookedUp).rename logs oldLogs).inode? oldLogs = some 2 ∧
    ((initial.after logsLookedUp).rename logs oldLogs).inode? logs = none ∧
    ((initial.after logsLookedUp).rename logs oldLogs).path? 3 = some oldLogs ∧
    ((initial.after logsLookedUp).renameInOrder logs oldLogs [(latestLog, 4), (logs, 2)]).path? 4 =
      some (oldLogs.child ⟨"latest.ulg", by decide⟩) := by
  have hne : logs ≠ oldLogs := by decide
  have horder : [(latestLog, 4), (logs, 2)].Perm
      ((initial.after logsLookedUp).movedMappings logs oldLogs) := by
    decide +kernel
  obtain ⟨hrename, hany⟩ := rename_moves_index logsLookedUp hne
  refine ⟨hne, horder, ?_, ?_, ?_, ?_⟩
  · rw [hrename.index]
    decide +kernel
  · rw [hrename.index]
    decide +kernel
  · rw [hrename.others 3]
    · decide +kernel
    · intro p hp _
      have hpath := (grows_after sound_initial logsLookedUp).sound.path_of_inode p 3 hp
      have hold : (initial.after logsLookedUp).path? 3 = some oldLogs := by decide +kernel
      rw [hold, Option.some_inj] at hpath
      rw [← hpath, within_self]
  · exact (hany _ horder).moved latestLog 4 _ (by decide +kernel) (by decide +kernel)
      (by decide +kernel)

end Examples

end RemoteMount.InodeTable
