import Mathlib.Algebra.GroupWithZero.Nat
import RemoteMount.Proofs.Mount.LookupCounts

namespace RemoteMount

namespace InodeTable

variable {t t' : InodeTable} {p : RemotePath} {i j n count given taken extra : Nat}
    {x : Nat × InodeTable}

structure Accounts (t : InodeTable) (i given taken : Nat) : Prop where
  le : taken ≤ given
  unknown : given = 0 → t.held i = 0
  issued : 0 < given → i < t.next
  counted : taken < given → t.lookups? i = some (given - taken)
  settled : 0 < given → taken = given → t.lookups? i = none

theorem lookups?_forget (hi : i ≠ rootInode) (h : t.lookups? i = some count) (hn : n ≤ count) :
    (t.forget i n).2.lookups? i = if n = count then none else some (count - n) := by
  obtain ⟨t', ht'⟩ : ∃ t', t.decrement i n = some t' := by
    rw [decrement, h]
    exact ⟨_, if_pos hn⟩
  obtain ⟨⟨held, hheld, -, hheld'⟩, -⟩ := lookups?_of_decrement ht'
  obtain rfl : count = held := Option.some_inj.1 (h.symm.trans hheld)
  simp only [forget, if_neg hi, ht', hheld', Option.some_inj]
  by_cases he : n = count
  · rw [if_pos (by omega), if_pos he]
    simp [lookups?, evict, KeyMap.get?_erase]
  · rw [if_neg (by omega), if_neg he, hheld']

theorem held_forget_le : (t.forget j n).2.held i ≤ t.held i := by
  by_cases hij : i = j
  · subst hij
    rcases forget_cases t i n with h | ⟨t', ht', h | ⟨-, h⟩⟩
    · rw [h]
    · obtain ⟨⟨count, hcount, -, hcount'⟩, -⟩ := lookups?_of_decrement ht'
      simp only [h, held, hcount, hcount', Option.getD_some]
      omega
    · simp [h, held, lookups?, evict, KeyMap.get?_erase]
  · rw [held, held, lookups?_forget_of_ne hij]

namespace Accounts

theorem of_lookups?_eq (h : t.Accounts i given taken) (hl : t'.lookups? i = t.lookups? i)
    (hn : t.next ≤ t'.next) :
    t'.Accounts i given taken := by
  refine ⟨h.le, fun hg ↦ ?_, fun hg ↦ Nat.lt_of_lt_of_le (h.issued hg) hn, fun hlt ↦ ?_,
    fun hg he ↦ ?_⟩
  · rw [held, hl]
    exact h.unknown hg
  · rw [hl, h.counted hlt]
  · rw [hl, h.settled hg he]

theorem numbers (h : t.Accounts i given taken) (ht : t.Sound) (hx : t.Numbers p extra x) :
    x.2.Accounts i (given + if i = x.1 then extra else 0) taken := by
  by_cases he : i = x.1
  · rw [if_pos he]
    have hle := h.le
    -- A number that was given up is not the one that is given out now.
    have hopen : given = 0 ∨ taken < given := by
      by_contra hclosed
      have hnone : t.path? i = none := lookups?_eq_none_iff.1 (h.settled (by omega) (by omega))
      apply hx.ne_of_path? ht (h.issued (by omega)) _ he
      rw [hnone]
      exact nofun
    have hheld : t.held i = given - taken := by
      rcases hopen with hg | hlt
      · rw [h.unknown hg]
        omega
      · rw [held, h.counted hlt, Option.getD_some]
    have hcount : x.2.lookups? i = some (given - taken + extra) := by
      rw [hx.lookups, if_pos he, ← hheld, held]
    refine ⟨by omega, fun hg ↦ ?_, fun _ ↦ ?_, fun hlt ↦ ?_, fun hg hsettled ↦ ?_⟩
    · rw [held, hcount, Option.getD_some]
      omega
    · rw [he]
      exact hx.lt_next
    · rw [hcount]
      congr 1
      omega
    · omega
  · rw [if_neg he, Nat.add_zero]
    apply h.of_lookups?_eq _ hx.next_le
    rw [hx.lookups, if_neg he]

theorem forget (h : t.Accounts i given taken) (hi : i ≠ rootInode) (hn : taken + n ≤ given) :
    (t.forget i n).2.Accounts i given (taken + n) := by
  refine ⟨hn, fun hg ↦ ?_, fun hg ↦ ?_, fun hlt ↦ ?_, fun hg he ↦ ?_⟩
  · have hle : (t.forget i n).2.held i ≤ t.held i := held_forget_le
    have hzero := h.unknown hg
    omega
  · rw [next_forget]
    exact h.issued hg
  · have hcount := h.counted (by omega)
    rw [lookups?_forget hi hcount (by omega), if_neg (by omega)]
    congr 1
    omega
  · by_cases hlt : taken < given
    · rw [lookups?_forget hi (h.counted hlt) (by omega), if_pos (by omega)]
    · have hnone := lookups?_eq_none_iff.1 (h.settled hg (by omega))
      rw [lookups?_eq_none_iff, path?_forget, hnone, ite_self]

theorem forget_of_ne (h : t.Accounts i given taken) (hj : i ≠ j) :
    (t.forget j n).2.Accounts i given taken :=
  h.of_lookups?_eq (lookups?_forget_of_ne hj) next_forget.ge

end Accounts

theorem accounts_initial (hi : i ≠ rootInode) : initial.Accounts i 0 0 := by
  refine ⟨Nat.le_refl 0, fun _ ↦ ?_, ?_, ?_, ?_⟩
  · rw [held, lookups?, initial, KeyMap.get?_insert, if_neg hi, KeyMap.get?_empty]
    rfl
  all_goals omega

end InodeTable

namespace Mount

open InodeTable (rootInode)

/-- What passes between the table and the kernel: a lookup that comes with a reply, or lookups
that are forgotten. -/
inductive Transfer
  | handed (ino : Nat)
  | returned (ino n : Nat)
deriving DecidableEq

def Transfer.returns (i : Nat) : Transfer → Nat
  | handed _ => 0
  | returned j n => if j = i then n else 0

def handedOut (i : Nat) (l : List Transfer) : Nat := l.count (.handed i)

def givenBack (i : Nat) (l : List Transfer) : Nat := (l.map (Transfer.returns i)).sum

/-- At no time more of the number is given back than was handed out. -/
def Fair (i : Nat) (l : List Transfer) : Prop := ∀ l' ∈ l.inits, givenBack i l' ≤ handedOut i l'

instance (i : Nat) (l : List Transfer) : Decidable (Fair i l) :=
  inferInstanceAs (Decidable (∀ l' ∈ l.inits, _))

def Callback.transfers (c : Callback) : Except CallError Reply → List Transfer
  | .ok r =>
    c.forgets.map (fun f ↦ .returned f.1 f.2) ++ (r.child?.map fun a ↦ .handed a.ino).toList
  | .error _ => []

variable {t t' : InodeTable} {l l' : List Transfer} {i j n : Nat}

@[simp] theorem handedOut_append : handedOut i (l ++ l') = handedOut i l + handedOut i l' :=
  List.count_append

@[simp] theorem givenBack_append : givenBack i (l ++ l') = givenBack i l + givenBack i l' := by
  simp only [givenBack, List.map_append, List.sum_append]

@[simp] theorem handedOut_handed : handedOut i [.handed j] = if i = j then 1 else 0 := by
  rw [handedOut, List.count_singleton]
  apply if_congr _ rfl rfl
  rw [beq_iff_eq, Transfer.handed.injEq, eq_comm]

@[simp] theorem handedOut_returned : handedOut i [.returned j n] = 0 := by simp [handedOut]

@[simp] theorem givenBack_handed : givenBack i [.handed j] = 0 := rfl

@[simp] theorem givenBack_returned : givenBack i [.returned j n] = if j = i then n else 0 := by
  simp [givenBack, Transfer.returns]

theorem Fair.le (h : Fair i l) : givenBack i l ≤ handedOut i l := h l (by simp)

theorem Fair.of_append (h : Fair i (l ++ l')) : Fair i l := by
  intro k hk
  apply h
  rw [List.mem_inits] at hk ⊢
  exact hk.trans (List.prefix_append l l')

/-- The table counts what the transfers leave of a number with the kernel. -/
abbrev Balances (t : InodeTable) (i : Nat) (l : List Transfer) : Prop :=
  t.Accounts i (handedOut i l) (givenBack i l)

theorem Peeked.balances (h : Peeked t t') (ht : t.Sound) (hl : Balances t i l) :
    Balances t' i l := by
  apply h.induct (P := fun t₁ ↦ Balances t₁ i l) ht hl
  intro t₁ q ht₁ hl₁
  simpa only [ite_self, Nat.add_zero] using hl₁.numbers ht₁ (InodeTable.peek_numbers ht₁ q)

theorem balances_forget (hl : Balances t i l) (hi : i ≠ rootInode)
    (hfair : Fair i (l ++ [.returned j n])) :
    Balances (t.forget j n).2 i (l ++ [.returned j n]) := by
  have hle := hfair.le
  simp only [Balances, handedOut_append, givenBack_append, handedOut_returned,
    givenBack_returned] at hle ⊢
  by_cases he : j = i
  · subst he
    rw [if_pos rfl] at hle ⊢
    exact hl.forget hi hle
  · rw [if_neg he]
    exact hl.forget_of_ne (Ne.symm he)

theorem balances_foldl_forget {counts : List (Nat × Nat)} (hl : Balances t i l) (hi : i ≠ rootInode)
    (hfair : Fair i (l ++ counts.map fun f ↦ .returned f.1 f.2)) :
    Balances (counts.foldl (fun t f ↦ (t.forget f.1 f.2).2) t) i
      (l ++ counts.map fun f ↦ .returned f.1 f.2) := by
  induction counts generalizing t l with
  | nil => simpa using hl
  | cons f counts ih =>
    rw [List.map_cons, List.append_cons] at hfair ⊢
    exact ih (balances_forget hl hi hfair.of_append) hfair

variable {σ : Type} [RemoteDevice σ] {m m' : Mount σ} {caller : Caller} {c : Callback}
    {x : Except CallError Reply}

theorem transfers_eq_nil (hf : c.forgets = []) (hx : ∀ r, x = .ok r → r.child? = none) :
    c.transfers x = [] := by
  cases x with
  | error e => rfl
  | ok r =>
    rw [Callback.transfers, hf, hx r rfl]
    rfl

theorem transfers_nothing {y : Except CallError Unit} (hf : c.forgets = []) :
    c.transfers (y.map fun _ ↦ .nothing) = [] := by
  apply transfers_eq_nil hf
  rintro r hr
  cases y <;> cases hr
  rfl

theorem Answered.balances (h : m.Answered caller c x m') (hm : m.inodes.Sound) (hi : i ≠ rootInode)
    (hl : Balances m.inodes i l) (hfair : Fair i (l ++ c.transfers x)) :
    Balances m'.inodes i (l ++ c.transfers x) := by
  cases h with
  | calm hb ht hforgets hx =>
    rw [transfers_eq_nil hforgets fun r hr ↦ (hx r hr).1, List.append_nil]
    exact ht.balances hm hl
  | @entered r b path a hb hp ha hr hforgets =>
    have hgiven : c.transfers (.ok r) = [.handed (m.inodes.lookup path).1] := by
      rw [Callback.transfers, hforgets, hr]
      rfl
    simp only [hgiven, Balances, handedOut_append, givenBack_append, handedOut_handed,
      givenBack_handed]
    exact hl.numbers hm (InodeTable.lookup_numbers hm path)
  | forgot =>
    have hreturned : c.transfers (.ok .nothing) = c.forgets.map fun f ↦ .returned f.1 f.2 := by
      simp [Callback.transfers, Reply.child?]
    rw [hreturned] at hfair ⊢
    exact balances_foldl_forget hl hi hfair
  | removed hc hx hforgets =>
    rw [transfers_nothing hforgets, List.append_nil]
    dsimp only
    split
    · exact hl.of_lookups?_eq rfl (Nat.le_refl _)
    · exact hl
  | moved hc hx hforgets =>
    rw [transfers_nothing hforgets, List.append_nil]
    dsimp only
    split
    · exact hl.of_lookups?_eq InodeTable.lookups?_rename InodeTable.next_rename.ge
    · exact hl

theorem Answered.inodes_of_error {e : CallError} (h : m.Answered caller c x m')
    (hx : x = .error e) :
    m'.inodes = m.inodes := by
  cases h with
  | calm hb ht hforgets hx' he => exact he e hx
  | entered | forgot => cases hx
  | @removed y => cases y <;> cases hx; rfl
  | @moved y => cases y <;> cases hx; rfl

/-- What happens to a mount over any device. Between two callbacks the device comes to whatever
state. -/
inductive Happening (σ : Type)
  | device (d : σ)
  | callback (caller : Caller) (c : Callback)

def happen (m : Mount σ) : Happening σ → Mount σ
  | .device d => { m with base := { m.base with device := d } }
  | .callback caller c => (m.answer caller c).2

def after (m : Mount σ) (happenings : List (Happening σ)) : Mount σ := happenings.foldl happen m

def transfers : Mount σ → List (Happening σ) → List Transfer
  | _, [] => []
  | m, .device d :: rest => (m.happen (.device d)).transfers rest
  | m, .callback caller c :: rest =>
    c.transfers (m.answer caller c).1 ++ (m.happen (.callback caller c)).transfers rest

theorem sound_after (hm : m.inodes.Sound) (happenings : List (Happening σ)) :
    (m.after happenings).inodes.Sound := by
  induction happenings generalizing m with
  | nil => exact hm
  | cons h happenings ih =>
    cases h with
    | device d => exact ih hm
    | callback caller c => exact ih ((answered m caller c).inodes_sound hm)

/-- The run: by induction on what happens, with all earlier transfers on the account. -/
theorem balances_after {happenings : List (Happening σ)} (hm : m.inodes.Sound) (hi : i ≠ rootInode)
    (hl : Balances m.inodes i l) (hfair : Fair i (l ++ m.transfers happenings)) :
    Balances (m.after happenings).inodes i (l ++ m.transfers happenings) := by
  induction happenings generalizing m l with
  | nil => rwa [transfers, List.append_nil]
  | cons h happenings ih =>
    cases h with
    | device d => exact ih hm hl hfair
    | callback caller c =>
      rw [transfers, ← List.append_assoc] at hfair ⊢
      have hstep := answered m caller c
      exact ih (hstep.inodes_sound hm) (hstep.balances hm hi hl hfair.of_append) hfair

/-- Whatever a device does and answers: as long as the kernel gives back no more of a number
than replies handed out, the table counts the lookups that are left with the kernel, and the
number is evicted when none is left. A callback that fails leaves the table as it was. -/
theorem lookups_match_kernel (d : σ) (config : Config) (happenings : List (Happening σ)) :
    (∀ i ≠ rootInode, Fair i ((start d config).transfers happenings) →
      (givenBack i ((start d config).transfers happenings) <
        handedOut i ((start d config).transfers happenings) →
        ((start d config).after happenings).inodes.lookups? i =
          some (handedOut i ((start d config).transfers happenings) -
            givenBack i ((start d config).transfers happenings))) ∧
      (0 < handedOut i ((start d config).transfers happenings) →
        givenBack i ((start d config).transfers happenings) =
          handedOut i ((start d config).transfers happenings) →
        ((start d config).after happenings).inodes.path? i = none ∧
          ∀ p, ((start d config).after happenings).inodes.inode? p ≠ some i)) ∧
    ∀ caller c e, (((start d config).after happenings).answer caller c).1 = .error e →
      (((start d config).after happenings).answer caller c).2.inodes =
        ((start d config).after happenings).inodes := by
  refine ⟨fun i hi hfair ↦ ?_, fun caller c e he ↦ (answered _ caller c).inodes_of_error he⟩
  have hbalance := balances_after (l := []) InodeTable.sound_initial hi
    (InodeTable.accounts_initial hi) hfair
  rw [List.nil_append] at hbalance
  refine ⟨hbalance.counted, fun hgiven hall ↦ ?_⟩
  have hnone := InodeTable.lookups?_eq_none_iff.1 (hbalance.settled hgiven hall)
  refine ⟨hnone, fun p hp ↦ ?_⟩
  rw [(sound_after InodeTable.sound_initial happenings).path_of_inode p i hp] at hnone
  cases hnone

section Examples

open Memory (Device)
open Turns (pilot)

def lostLog : List (Happening Device) :=
  [.callback pilot (.lookup 1 (.text "fs")), .callback pilot (.lookup 2 (.text "microsd")),
    .callback pilot (.readdir 3 0 4096), .callback pilot (.lookup 3 (.text "log")),
    .callback pilot (.create 4 (.text "1.ulg") 1), .callback pilot (.lookup 4 (.text "1.ulg")),
    .callback pilot (.rename 4 (.text "1.ulg") 4 (.text "2.ulg") 0), .device .px4,
    .callback pilot (.unlink 4 (.text "2.ulg")), .callback pilot (.forgetAll [(4, 1), (5, 1)])]

theorem lookups_match_kernel_lostLog :
    ((start Device.px4 .standard).after lostLog).inodes.lookups? 5 = some 1 ∧
    ((start Device.px4 .standard).after lostLog).inodes.path? 4 = none ∧
    (((start Device.px4 .standard).after lostLog).answer pilot
      (.lookup 4 (.text "2.ulg"))).2.inodes =
      ((start Device.px4 .standard).after lostLog).inodes := by
  obtain ⟨hcounts, hfailed⟩ := lookups_match_kernel Device.px4 .standard lostLog
  have hlog := hcounts 5 (by decide) (by decide +kernel)
  have hdirectory := hcounts 4 (by decide) (by decide +kernel)
  refine ⟨?_, (hdirectory.2 (by decide +kernel) (by decide +kernel)).1,
    hfailed pilot _ (.invalidInode 4) (by decide +kernel)⟩
  rw [hlog.1 (by decide +kernel)]
  decide +kernel

end Examples

end Mount

end RemoteMount
