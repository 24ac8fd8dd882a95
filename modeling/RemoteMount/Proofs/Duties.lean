import RemoteMount.Filesystem
import RemoteMount.Proofs.CacheAccesses
import RemoteMount.Proofs.Memory.Requests

namespace RemoteMount

def Step.Drops : Step → RemotePath → Prop
  | .cache a, dir => a.Drops dir
  | _, _ => False

inductive Duty
  | drop (dir : RemotePath)
  | restate (path : RemotePath)

namespace Duty

def MetBy : Duty → Step → Prop
  | drop dir, s => s.Drops dir
  | restate path, s => s.Drops path.parent ∨ ∃ size, s = .cache (.updateSize path size)

/-- The answers that are reckoned with: a size need not be restated if closing the session
fails. -/
def Expects : Duty → (s : Step) → s.Answer → Prop
  | restate _, .remote (.close _), x => ∃ u, x = .ok u
  | _, _, _ => True

end Duty

/-- What a call has learnt from its steps so far. -/
inductive Fact
  | begun (generation : Nat)
  | listed (dir : RemotePath) (generation : Nat) (rows : List ListingEntry)
  | opened (id : SessionId) (path : RemotePath)

def Fact.After (known : Fact → Prop) : (s : Step) → s.Answer → Fact → Prop
  | .cache .generation, generation, f => known f ∨ f = .begun generation
  | .remote (.listdir dir), .ok rows, f =>
    known f ∨ ∃ generation, known (.begun generation) ∧ f = .listed dir generation rows
  | .remote (.openFile path _), .ok id, f => known f ∨ f = .opened id path
  | _, _, f => known f

namespace Program

variable {α β : Type}

/-- Every way on which the program can go meets the duty. -/
def Meets (duty : Duty) : Program α → Prop
  | done _ => False
  | step s next => duty.MetBy s ∨ ∀ x, duty.Expects s x → (next x).Meets duty

variable (policy : Policy) (caller : Caller) (naming : Bool) (owed : Duty → Prop)

/-- What a step may do: store a listing that is known, and make requests whose duties are met by
what comes next or owed by what comes after the program. -/
def Allows (known : Fact → Prop) : (s : Step) → (s.Answer → Program α) → Prop
  | .cache (.populate ..), _ => False
  | .cache (.populateIfCurrent dir generation records), _ =>
    ∃ rows, known (.listed dir generation rows) ∧
      records = Filesystem.recordsOf policy caller dir rows
  | .remote r, next =>
    (∀ p, r.Names p → naming = true ∧ ∀ x, owed (.drop p.parent) ∨
      (next x).Meets (.drop p.parent)) ∧
    ∀ id, r.stores? = some id → ∃ path, known (.opened id path) ∧
      ∀ x, owed (.restate path) ∨ (next (.ok x)).Meets (.restate path)
  | _, _ => True

def Keeps : (Fact → Prop) → Program α → Prop
  | _, done _ => True
  | known, step s next =>
    Allows policy caller naming owed known s next ∧ ∀ x, (next x).Keeps (Fact.After known s x)

variable {policy caller naming owed} {duty : Duty} {owed' : Duty → Prop}
    {known known' : Fact → Prop}
variable {p : Program α} {f : α → Program β}

theorem Meets.bind (h : p.Meets duty) : (p >>= f).Meets duty := by
  induction p with
  | done a => exact h.elim
  | step s next ih => exact h.imp_right fun h x hx ↦ ih x (h x hx)

theorem meets_bind (h : ∀ a, (f a).Meets duty) : (p >>= f).Meets duty := by
  induction p with
  | done a => exact h a
  | step s next ih => exact .inr fun x _ ↦ ih x

theorem Meets.restate {path : RemotePath} (h : p.Meets (.drop path.parent)) :
    p.Meets (.restate path) := by
  induction p with
  | done a => exact h
  | step s next ih =>
    rcases h with h | h
    · exact .inl (.inl h)
    · exact .inr fun x _ ↦ ih x (h x trivial)

theorem Fact.After.mono (hk : ∀ f, known f → known' f) {s : Step} {x : s.Answer} {f : Fact}
    (h : Fact.After known s x f) : Fact.After known' s x f := by
  unfold Fact.After at h ⊢
  split
  · exact h.imp_left (hk f)
  · exact h.imp (hk f) fun ⟨generation, hg, he⟩ ↦ ⟨generation, hk _ hg, he⟩
  · exact h.imp_left (hk f)
  · split at h
    all_goals simp_all

theorem Keeps.mono (h : p.Keeps policy caller naming owed known) (hk : ∀ f, known f → known' f) :
    p.Keeps policy caller naming owed known' := by
  induction p generalizing known known' with
  | done a => trivial
  | step s next ih =>
    obtain ⟨ha, hn⟩ := h
    refine ⟨?_, fun x ↦ ih x (hn x) fun f ↦ Fact.After.mono hk⟩
    cases s with
    | remote r =>
      refine ⟨ha.1, fun id hid ↦ ?_⟩
      obtain ⟨path, hp, hm⟩ := ha.2 id hid
      exact ⟨path, hk _ hp, hm⟩
    | size id => trivial
    | cache a =>
      cases a with
      | populate => exact ha
      | populateIfCurrent =>
        obtain ⟨rows, hr, he⟩ := ha
        exact ⟨rows, hk _ hr, he⟩
      | _ => trivial

theorem Fact.After.of_known {s : Step} {x : s.Answer} {f : Fact} (h : known f) :
    Fact.After known s x f := by
  unfold Fact.After
  split
  · exact .inl h
  · exact .inl h
  · exact .inl h
  · exact h

/-- A program does what it owes together with what comes after it. -/
theorem Keeps.bind (hp : p.Keeps policy caller naming owed' known)
    (hf : ∀ a, (f a).Keeps policy caller naming owed known)
    (ho : ∀ duty, owed' duty → owed duty ∨ ∀ a, (f a).Meets duty) :
    (p >>= f).Keeps policy caller naming owed known := by
  induction p generalizing known with
  | done a => exact hf a
  | step s next ih =>
    obtain ⟨ha, hn⟩ := hp
    have hlater : ∀ duty x, owed' duty ∨ (next x).Meets duty →
        owed duty ∨ (next x >>= f).Meets duty := by
      intro duty x y
      rcases y with h | h
      · exact (ho duty h).imp_right meets_bind
      · exact .inr h.bind
    refine ⟨?_, fun x ↦ ih x (hn x) fun a ↦ (hf a).mono fun _ ↦ Fact.After.of_known⟩
    cases s with
    | remote r =>
      refine ⟨fun q hq ↦ ⟨(ha.1 q hq).1, fun x ↦ hlater _ x ((ha.1 q hq).2 x)⟩, fun id hid ↦ ?_⟩
      obtain ⟨path, hk, hm⟩ := ha.2 id hid
      exact ⟨path, hk, fun x ↦ hlater _ _ (hm x)⟩
    | size id => trivial
    | cache a =>
      cases a with
      | populate | populateIfCurrent => exact ha
      | _ => trivial

theorem Keeps.map {g : α → β} (h : p.Keeps policy caller naming owed known) :
    (g <$> p).Keeps policy caller naming owed known := by
  rw [map_eq_pure_bind]
  exact h.bind (fun _ ↦ trivial) fun _ hd ↦ .inl hd

end Program

end RemoteMount
