import RemoteMount.Call

namespace RemoteMount

variable {α β ε σ : Type}

namespace Request

def touches : Request → Bool
  | openFile _ .createWrite | write .. | truncate .. | mkdir _ | rmdir _ | unlink _ | rename .. =>
    true
  | openFile .. | listdir _ | seek .. | read .. | close _ => false

def makes : Request → Bool
  | openFile _ .createWrite | truncate .. | mkdir _ => true
  | openFile .. | write .. | rmdir _ | unlink _ | rename .. | listdir _ | seek .. | read ..
  | close _ => false

end Request

def failureOf : Except ε α → Option ε
  | .error e => some e
  | .ok _ => none

/-- A request that was made, and the error with which the device failed it, if it did. -/
structure Attempt where
  request : Request
  failure? : Option RemoteError
deriving DecidableEq

def firstFailure? (log : List Attempt) : Option RemoteError := log.findSome? (·.failure?)

@[simp] theorem firstFailure?_nil : firstFailure? [] = none := rfl

@[simp] theorem firstFailure?_append (log log' : List Attempt) :
    firstFailure? (log ++ log') = (firstFailure? log).or (firstFailure? log') :=
  List.findSome?_append

@[simp] theorem firstFailure?_singleton (a : Attempt) : firstFailure? [a] = a.failure? := by
  cases h : a.failure? <;> simp [firstFailure?, h]

def Untouched (log : List Attempt) : Prop :=
  ∀ a ∈ log, a.failure? = none ∧ a.request.touches = false

def Makes (log : List Attempt) : Prop := ∃ a ∈ log, a.request.makes = true

/-- What may be asked after the requests of the log: anything as long as nothing was changed and
nothing has failed. Then sessions can be closed, and what was made can be listed. -/
def Admits (log : List Attempt) (r : Request) : Prop :=
  Untouched log ∨ r.op = .close ∨ r.op = .listdir ∧ firstFailure? log = none ∧ Makes log

def Lawful (log : List Attempt) : Prop :=
  ∀ before a after, log = before ++ a :: after → Admits before a.request

theorem untouched_nil : Untouched [] := fun _ h ↦ nomatch h

theorem untouched_append {log log' : List Attempt} :
    Untouched (log ++ log') ↔ Untouched log ∧ Untouched log' :=
  List.forall_mem_append

theorem untouched_singleton {a : Attempt} :
    Untouched [a] ↔ a.failure? = none ∧ a.request.touches = false :=
  List.forall_mem_singleton

theorem Untouched.firstFailure? {log : List Attempt} (h : Untouched log) :
    firstFailure? log = none :=
  List.findSome?_eq_none_iff.2 fun a ha ↦ (h a ha).1

theorem Makes.append {log : List Attempt} (h : Makes log) (log' : List Attempt) :
    Makes (log ++ log') := by
  obtain ⟨a, ha, hm⟩ := h
  exact ⟨a, List.mem_append_left _ ha, hm⟩

theorem makes_append_singleton (log : List Attempt) {a : Attempt} (h : a.request.makes = true) :
    Makes (log ++ [a]) :=
  ⟨a, List.mem_append_right _ (List.mem_singleton_self a), h⟩

theorem lawful_nil : Lawful [] := by
  intro before a after h
  cases before <;> cases h

theorem Lawful.append {log : List Attempt} {a : Attempt} (h : Lawful log)
    (ha : Admits log a.request) :
    Lawful (log ++ [a]) := by
  intro before b after he
  rcases List.append_eq_append_iff.1 he with ⟨mid, rfl, hb⟩ | ⟨mid, rfl, hb⟩
  · cases mid with
    | nil =>
      obtain rfl : a = b := (List.cons.inj hb).1
      rwa [List.append_nil]
    | cons c mid => cases mid <;> cases hb
  · cases mid with
    | nil =>
      obtain rfl : b = a := (List.cons.inj hb).1
      rwa [List.append_nil] at ha
    | cons c mid =>
      obtain ⟨rfl, -⟩ := List.cons.inj hb
      exact h before b mid rfl

def Step.noted (log : List Attempt) : (s : Step) → s.Answer → List Attempt
  | .remote r, x => log ++ [⟨r, failureOf x⟩]
  | .size _, _ | .cache _, _ => log

def Step.AdmittedAfter (log : List Attempt) : Step → Prop
  | .remote r => Admits log r
  | .size _ | .cache _ => True

theorem Lawful.noted {log : List Attempt} (h : Lawful log) {s : Step} (hs : s.AdmittedAfter log)
    (x : s.Answer) :
    Lawful (s.noted log x) := by
  cases s with
  | remote r => exact h.append hs
  | size id => exact h
  | cache a => exact h

/-- A device, and the requests that were made of it, the earliest first. -/
structure Watched (σ : Type) where
  device : σ
  log : List Attempt

instance [RemoteDevice σ] : RemoteDevice (Watched σ) where
  answer r w :=
    let (x, d) := RemoteDevice.answer r w.device
    (x, ⟨d, w.log ++ [⟨r, failureOf x⟩]⟩)
  size w s := RemoteDevice.size w.device s

namespace CachedDevice

def watched (b : CachedDevice σ) : CachedDevice (Watched σ) := ⟨⟨b.device, []⟩, b.cache⟩

def unwatched (w : CachedDevice (Watched σ)) : CachedDevice σ := ⟨w.device.device, w.cache⟩

end CachedDevice

variable [RemoteDevice σ]

theorem Step.run_watched (s : Step) (w : CachedDevice (Watched σ)) :
    (s.run w).1 = (s.run w.unwatched).1 ∧ (s.run w).2.unwatched = (s.run w.unwatched).2 ∧
      (s.run w).2.device.log = s.noted w.device.log (s.run w).1 := by
  cases s with
  | remote r => exact ⟨rfl, rfl, rfl⟩
  | size id => exact ⟨rfl, rfl, rfl⟩
  | cache a => exact ⟨rfl, rfl, rfl⟩

namespace Program

variable {p : Program α} {f : α → Program β} {Q R : α → List Attempt → Prop}
    {T : β → List Attempt → Prop}
variable {log : List Attempt}

theorem run_watched (p : Program α) (w : CachedDevice (Watched σ)) :
    (p.run w).1 = (p.run w.unwatched).1 ∧ (p.run w).2.unwatched = (p.run w.unwatched).2 := by
  induction p generalizing w with
  | done a => exact ⟨rfl, rfl⟩
  | step s next ih =>
    obtain ⟨hx, hb, -⟩ := s.run_watched w
    obtain ⟨hx', hb'⟩ := ih (s.run w).1 (s.run w).2
    change ((next (s.run w).1).run (s.run w).2).1 =
      ((next (s.run w.unwatched).1).run (s.run w.unwatched).2).1 ∧
      ((next (s.run w).1).run (s.run w).2).2.unwatched =
        ((next (s.run w.unwatched).1).run (s.run w.unwatched).2).2
    rw [hx', hb', hx, hb]
    exact ⟨rfl, rfl⟩

def attempts (p : Program α) (b : CachedDevice σ) : List Attempt := (p.run b.watched).2.device.log

/-- Every request of the program is admitted by those before it, and it ends as `Q` says. -/
def Heeds (Q : α → List Attempt → Prop) : Program α → List Attempt → Prop
  | done a, log => Q a log
  | step s next, log => s.AdmittedAfter log ∧ ∀ x, (next x).Heeds Q (s.noted log x)

theorem Heeds.mono (h : p.Heeds Q log) (hq : ∀ a log', Q a log' → R a log') : p.Heeds R log := by
  induction p generalizing log with
  | done a => exact hq a log h
  | step s next ih => exact ⟨h.1, fun x ↦ ih x (h.2 x)⟩

theorem Heeds.bind (hp : p.Heeds Q log) (hf : ∀ a log', Q a log' → (f a).Heeds T log') :
    (p >>= f).Heeds T log := by
  induction p generalizing log with
  | done a => exact hf a log hp
  | step s next ih => exact ⟨hp.1, fun x ↦ ih x (hp.2 x)⟩

theorem Heeds.map {g : α → β} (h : p.Heeds (fun a log' ↦ T (g a) log') log) :
    (g <$> p).Heeds T log := by
  rw [map_eq_pure_bind]
  exact h.bind fun _ _ hq ↦ hq

theorem Heeds.run_watched {w : CachedDevice (Watched σ)} (h : p.Heeds Q w.device.log)
    (hl : Lawful w.device.log) :
    Q (p.run w).1 (p.run w).2.device.log ∧ Lawful (p.run w).2.device.log := by
  induction p generalizing w with
  | done a => exact ⟨h, hl⟩
  | step s next ih =>
    have hlog := (s.run_watched w).2.2
    have hlater := h.2 (s.run w).1
    have hlawful := hl.noted h.1 (s.run w).1
    rw [← hlog] at hlater hlawful
    exact ih (s.run w).1 hlater hlawful

/-- What is known of all answers holds of those that the device gives. -/
theorem Heeds.run (h : p.Heeds Q []) (b : CachedDevice σ) :
    Q (p.run b).1 (p.attempts b) ∧ Lawful (p.attempts b) := by
  have hrun := Heeds.run_watched (w := b.watched) h lawful_nil
  rw [(p.run_watched b.watched).1] at hrun
  exact hrun

end Program

end RemoteMount
