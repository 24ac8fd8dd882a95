import RemoteMount.KeyMap
import RemoteMount.Proofs.Paths

namespace RemoteMount.KeyMap

open RemotePath

variable {α : Type} {m : KeyMap RemotePath α} {old new p q target : RemotePath}
    {l : List RemotePath} {a : α}

def moveKey (old new : RemotePath) (m : KeyMap RemotePath α) (path : RemotePath) :
    KeyMap RemotePath α :=
  match m.get? path, path.rebase old new with
  | some a, some target => (m.erase path).insert target a
  | _, _ => m

theorem get?_moveKey (hp : m.get? p = some a) (ht : p.rebase old new = some target) :
    (moveKey old new m p).get? q = if q = target then some a else if q = p then none
      else m.get? q := by
  unfold moveKey
  rw [hp, ht, get?_insert, get?_erase]

/-- Moving some keys that lie at or below `old`, and none of them at or below `new`, empties
their places and fills the new ones. -/
theorem get?_foldl_moveKey (hl : l.Nodup) (hm : ∀ p ∈ l, p.within old = true ∧ (m.get? p).isSome)
    (hn : ∀ p ∈ l, p.within new = false) :
    (∀ q, q.within new = false → (l.foldl (moveKey old new) m).get? q = if q ∈ l then none
      else m.get? q) ∧
    ∀ p q, p.rebase old new = some q →
      (l.foldl (moveKey old new) m).get? q = if p ∈ l then m.get? p else m.get? q := by
  induction l generalizing m with
  | nil => simp
  | cons p l ih =>
    obtain ⟨hpl, hl⟩ := List.nodup_cons.1 hl
    obtain ⟨hpo, hps⟩ := hm p List.mem_cons_self
    obtain ⟨a, ha⟩ := Option.isSome_iff_exists.1 hps
    obtain ⟨target, ht⟩ := exists_rebase new hpo
    have hget (q : RemotePath) := get?_moveKey (q := q) ha ht
    have hsource : ∀ q, q.within new = false → q ≠ target := by
      intro q hq he
      rw [he, rebase_within ht] at hq
      cases hq
    -- The keys still to be moved are not touched: what was written lies at or below `new`, and none
    -- of them does.
    have hrest : ∀ q ∈ l, q.within old = true ∧ ((moveKey old new m p).get? q).isSome := by
      intro q hq
      obtain ⟨hqo, hqs⟩ := hm q (List.mem_cons_of_mem p hq)
      have hqt := hsource q (hn q (List.mem_cons_of_mem p hq))
      have hqp : q ≠ p := fun he ↦ hpl (he ▸ hq)
      refine ⟨hqo, ?_⟩
      rwa [hget, if_neg hqt, if_neg hqp]
    obtain ⟨ih₁, ih₂⟩ := ih hl hrest fun q hq ↦ hn q (List.mem_cons_of_mem p hq)
    constructor
    · intro q hq
      rw [List.foldl_cons, ih₁ q hq, hget, if_neg (hsource q hq)]
      by_cases hqp : q = p <;> simp [hqp]
    · intro p' q hq
      have hqp : q ≠ p := by
        intro he
        have hpn := hn p List.mem_cons_self
        rw [← he, rebase_within hq] at hpn
        cases hpn
      rw [List.foldl_cons, ih₂ p' q hq, hget, hget, if_neg hqp]
      by_cases hp' : p' = p
      · subst hp'
        rw [ht, Option.some_inj] at hq
        simp [hpl, hq, ha]
      · have hqt : q ≠ target := by
          intro he
          rw [he] at hq
          exact hp' (Option.some_inj.1 ((rebase_symm hq).symm.trans (rebase_symm ht)))
        by_cases hpl' : p' ∈ l
        · have hp't := hsource p' (hn p' (List.mem_cons_of_mem p hpl'))
          simp [hp', hp't, hpl']
        · simp [hp', hqt, hpl']

end RemoteMount.KeyMap
