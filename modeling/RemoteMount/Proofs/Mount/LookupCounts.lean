import RemoteMount.Proofs.InodeRenames
import RemoteMount.Proofs.Mount.Answers

namespace RemoteMount

namespace InodeTable

variable {t : InodeTable} {p : RemotePath} {i extra : Nat} {x : Nat × InodeTable}

def held (t : InodeTable) (i : Nat) : Nat := (t.lookups? i).getD 0

theorem Numbers.held (h : t.Numbers p extra x) :
    x.2.held i = t.held i + if i = x.1 then extra else 0 := by
  rw [InodeTable.held, InodeTable.held, h.lookups]
  split
  · rfl
  · rfl

theorem held_le_forget (t : InodeTable) (i j n : Nat) :
    t.held i ≤ (t.forget j n).2.held i + if j = i then n else 0 := by
  split
  · rename_i he
    subst he
    exact le_lookups?_forget
  · rename_i hne
    rw [held, held, lookups?_forget_of_ne (Ne.symm hne)]
    exact Nat.le_refl _

end InodeTable

namespace Mount

def Reply.gives (i : Nat) : Except CallError Reply → Nat
  | .ok r => if r.child?.map (·.ino) = some i then 1 else 0
  | .error _ => 0

/-- The lookups of a number that the kernel holds after it gave some back, of `n` that it held
before. -/
def Callback.keeps (i n : Nat) (c : Callback) : Nat :=
  c.forgets.foldl (fun n f ↦ if f.1 = i then n - f.2 else n) n

section Table

variable {t t' : InodeTable} {p : RemotePath} {i n : Nat}

theorem Peeked.induct {P : InodeTable → Prop} (h : Peeked t t') (ht : t.Sound) (hp : P t)
    (hstep : ∀ t q, t.Sound → P t → P (t.peek q).2) : P t' := by
  induction h with
  | refl => exact hp
  | peek q _ ih => exact ih ((InodeTable.peek_numbers ht q).sound ht) (hstep _ q ht hp)

theorem foldl_forget_induct {P : InodeTable → Prop} (l : List (Nat × Nat)) (ht : t.Sound) (hp : P t)
    (hstep : ∀ t j n, t.Sound → P t → P (t.forget j n).2) :
    P (l.foldl (fun t f ↦ (t.forget f.1 f.2).2) t) := by
  induction l generalizing t with
  | nil => exact hp
  | cons f l ih => exact ih ht.forget (hstep t f.1 f.2 ht hp)

theorem Peeked.sound (h : Peeked t t') (ht : t.Sound) : t'.Sound :=
  h.induct ht ht fun _ q ht _ ↦ (InodeTable.peek_numbers ht q).sound ht

theorem Peeked.held (h : Peeked t t') (ht : t.Sound) : t'.held i = t.held i := by
  apply h.induct (P := fun t₁ ↦ t₁.held i = t.held i) ht rfl
  intro t₁ q ht₁ hp
  rw [(InodeTable.peek_numbers ht₁ q).held, ite_self, Nat.add_zero, hp]

theorem Peeked.inode? (h : Peeked t t') (ht : t.Sound) (hp : t.inode? p = some i) :
    t'.inode? p = some i :=
  h.induct ht hp fun _ q ht hp ↦ (InodeTable.peek_numbers ht q).inode?_of_known hp

theorem Peeked.path? (h : Peeked t t') (ht : t.Sound) (hi : t.path? i = some p) :
    t'.path? i = some p :=
  h.induct ht hi fun _ q ht hi ↦ (InodeTable.peek_numbers ht q).path?_of_known ht hi

theorem Peeked.lookups? (h : Peeked t t') (ht : t.Sound) (hi : t.lookups? i = some n) :
    t'.lookups? i = some n :=
  h.induct ht hi fun _ q ht hi ↦ (InodeTable.peek_numbers ht q).lookups?_of_known hi

theorem foldl_forget_sound (l : List (Nat × Nat)) (ht : t.Sound) :
    (l.foldl (fun t f ↦ (t.forget f.1 f.2).2) t).Sound :=
  foldl_forget_induct l ht ht fun _ _ _ ht _ ↦ ht.forget

theorem keeps_le_foldl_forget {n : Nat} (l : List (Nat × Nat)) (hn : n ≤ t.held i) :
    l.foldl (fun n f ↦ if f.1 = i then n - f.2 else n) n ≤
      (l.foldl (fun t f ↦ (t.forget f.1 f.2).2) t).held i := by
  induction l generalizing t n with
  | nil => exact hn
  | cons f l ih =>
    have hfirst := InodeTable.held_le_forget t i f.1 f.2
    apply ih
    dsimp only
    split
    · rename_i he
      rw [if_pos he] at hfirst
      omega
    · rename_i he
      rw [if_neg he] at hfirst
      omega

end Table

variable {σ : Type} [RemoteDevice σ] {m m' : Mount σ} {caller : Caller} {c : Callback}
    {x : Except CallError Reply}
variable {i : Nat}

theorem Answered.inodes_sound (h : m.Answered caller c x m') (hm : m.inodes.Sound) :
    m'.inodes.Sound := by
  cases h with
  | calm hb ht => exact ht.sound hm
  | @entered r b path => exact (InodeTable.lookup_numbers hm path).sound hm
  | forgot => exact foldl_forget_sound _ hm
  | removed =>
    dsimp only
    split
    · exact hm.invalidate
    · exact hm
  | moved =>
    dsimp only
    split
    · exact hm.rename
    · exact hm

theorem gives_of_child?_eq_none (h : ∀ r, x = .ok r → r.child? = none) : Reply.gives i x = 0 := by
  cases x with
  | error e => rfl
  | ok r =>
    rw [Reply.gives, h r rfl]
    rfl

theorem gives_nothing (y : Except CallError Unit) : Reply.gives i (y.map fun _ ↦ .nothing) = 0 := by
  cases y <;> rfl

theorem keeps_of_forgets_eq_nil {n : Nat} (h : c.forgets = []) : c.keeps i n = n := by
  rw [Callback.keeps, h]
  rfl

/-- The table counts every lookup that the kernel holds. -/
theorem Answered.holds_le {n : Nat} (h : m.Answered caller c x m') (hm : m.inodes.Sound)
    (hn : n ≤ m.inodes.held i) :
    c.keeps i n + Reply.gives i x ≤ m'.inodes.held i := by
  cases h with
  | calm hb ht hforgets hx =>
    rw [keeps_of_forgets_eq_nil hforgets, gives_of_child?_eq_none fun r hr ↦ (hx r hr).1,
      ht.held hm]
    exact hn
  | @entered r b path a hb hp ha hr hforgets =>
    have hheld := (InodeTable.lookup_numbers hm path).held (i := i)
    have hgives : Reply.gives i (.ok r) = if i = (m.inodes.lookup path).1 then 1 else 0 := by
      rw [Reply.gives, hr, Option.map_some, FileAttributes.ofAttributes]
      simp only [Option.some_inj, eq_comm]
    rw [keeps_of_forgets_eq_nil hforgets]
    dsimp only
    omega
  | forgot =>
    rw [gives_of_child?_eq_none (by rintro r ⟨⟩; rfl)]
    exact keeps_le_foldl_forget c.forgets hn
  | @removed y b path removal hc hx hforgets =>
    have hheld : (if y.isOk then m.inodes.invalidate path else m.inodes).held i =
        m.inodes.held i := by
      split <;> rfl
    rw [keeps_of_forgets_eq_nil hforgets, gives_nothing]
    dsimp only
    omega
  | @moved y b old new hc hx hforgets =>
    have hheld : (if y.isOk then m.inodes.rename old new else m.inodes).held i =
        m.inodes.held i := by
      split
      · rw [InodeTable.held, InodeTable.held, InodeTable.lookups?_rename]
      · rfl
    rw [keeps_of_forgets_eq_nil hforgets, gives_nothing]
    dsimp only
    omega

end Mount

end RemoteMount
